import ScriptMin.Proofs.Elsewhere.Answers
import ScriptMin.Proofs.Elsewhere.Cover
import ScriptMin.Proofs.Elsewhere.Statement
import ScriptMin.Proofs.Reading.Program

/-!
# The parts of a declared pattern

A pattern that was read is taken apart: `IsElements` and `IsProperties` say which parts stand
between two places, down to the patterns and expressions within, of which it is known only how they
are read elsewhere.
-/

namespace ScriptMin

open Source

namespace Kind

/-- What a pattern starts with. -/
def startsPattern (k : Kind) : Bool :=
  k.isBindingName || k matches .punctuator .openBrace | .punctuator .openBracket

/-- What stands behind a target: an equals sign, or what ends the part that it belongs to. -/
def endsTarget (k : Kind) : Bool :=
  k matches .punctuator .equals | .punctuator .comma | .punctuator .closeBracket |
    .punctuator .closeBrace | .punctuator .closeParenthesis

/-- What a key starts with. -/
def startsKey (k : Kind) : Bool :=
  k.isPropertyName || k matches .punctuator .openBracket

/-- What stands behind the key of a property. -/
def endsKey (k : Kind) : Bool :=
  k matches .punctuator .colon | .punctuator .comma | .punctuator .closeBrace

end Kind

namespace Grammar

open Parse Node

/-! ## Rules with levels enough -/

/-- Rules within these bounds are enough for all that is ahead of `c`. -/
structure Suffices (bound depth : Nat) (c : Cursor) : Prop where
  bound : c.rest.length < bound
  depth : 2 * (c.rest.length + 1) ≤ depth

namespace Suffices

variable {bound depth : Nat} {c c' : Cursor}

theorem mono (h : Suffices bound depth c) (hle : c'.rest.length ≤ c.rest.length) :
    Suffices bound depth c' :=
  ⟨by have := h.bound; omega, by have := h.depth; omega⟩

/-- Behind a token a level less is enough. -/
theorem inner (h : Suffices bound (depth + 1) c) (hlt : c'.rest.length < c.rest.length) :
    Suffices bound depth c' :=
  ⟨by have := h.bound; omega, by have := h.depth; omega⟩

theorem succ (h : Suffices bound depth c) : Suffices bound (depth + 1) c :=
  ⟨h.bound, h.depth.trans (Nat.le_succ depth)⟩

theorem exists_inner (h : Suffices bound depth c) : ∃ inner, depth = inner + 1 :=
  Nat.exists_eq_add_one.2 (by have := h.depth; omega)

theorem proceeds (h : Suffices bound depth c) (source : List Char) :
    (rules bound depth).Proceeds source (c.rest.length + 1) :=
  (proceeds_rules source bound depth).2 _ h.bound h.depth

end Suffices

section

variable {bound depth bound' depth' : Nat} {f : Frame} {e : Extent} {kind : Binding} {c d : Cursor}
  {r : Reader}

/-- What was read is read beside it too, if there are levels enough. -/
theorem answers_of_agrees {α : Type} {p q : Parse α} {R : α → α → Prop} {a : α}
    (h : p.Agrees q R) (hq : q.Runs ⟨d, none⟩ fun _ r => r.Coherent) (hcd : c.Alike d)
    (hp : p ⟨c, none⟩ = .ok (a, r)) : q.Answers ⟨d, none⟩ r.cursor (R a) := by
  have halike := h _ _ (Reader.Alike.of_cursor hcd)
  unfold Runs at hq
  rw [hp] at halike
  generalize hb : q ⟨d, none⟩ = result at halike hq
  cases halike with
  | @ok _ b _ s hab hs => exact ⟨b, s, hb, ⟨hq, hs.cursor⟩, hab⟩
  | right => exact absurd rfl hq

end

/-! ## Expressions and patterns -/

/-- The operand stands for the pattern before an equals sign. -/
def Operand.Covers (o : Operand) (p : Node) : Prop :=
  ∃ n, o = .plain n ∧ n.Covers p

/-- The text from `c` to `c'` is read as the expression `x`, wherever it stands. -/
structure IsExpression (f : Frame) (e : Extent) (c : Cursor) (x : Node) (c' : Cursor) : Prop where
  shorter : c'.rest.length < c.rest.length
  answers {bound depth : Nat} {d : Cursor} (h : Suffices bound depth c) (hcd : c.Alike d) :
    ((rules bound depth).expression f e).Answers ⟨d, none⟩ c' fun y => y.node.Alike x

theorem IsExpression.whole {f : Frame} {stop : Punctuator} {c c' d : Cursor} {x : Node}
    {bound depth : Nat} (hx : IsExpression f (.whole stop) c x c') (h : Suffices bound depth c)
    (hcd : c.Alike d) : ((rules bound depth).whole f stop).Answers ⟨d, none⟩ c' (·.Alike x) :=
  (hx.answers h hcd).bind fun _ _ hs hy => .pure hs hy

/-- The text from `c` to `c'` is read as an operand that stands for the pattern `p`, if that has no
shorthand with a default and something stands behind it that can follow a target. -/
structure IsPattern (f : Frame) (c : Cursor) (p : Node) (c' : Cursor) : Prop where
  shorter : c'.rest.length < c.rest.length
  first : ∃ t d, c.Starts t d ∧ t.kind.startsPattern
  operand {bound depth : Nat} {e : Extent} {s : Reader} {u : Token} {d : Cursor}
    (hplain : p.shorthandsPlain) (h : Suffices bound depth c) (hs : s.Beside c)
    (hu : c'.Starts u d) (hends : u.kind.endsTarget) :
    (operand (rules bound depth) f e).Answers s c' (·.Covers p)

/-- The value after an equals sign, if there is one, before a comma or `stop`. -/
inductive IsFallback (f : Frame) (stop : Punctuator) (c : Cursor) : Option Node → Cursor → Prop
  | none : IsFallback f stop c none c
  | some {t : Token} {c₁ c' : Cursor} {x : Node} (ht : c.Starts t c₁)
    (hequals : t.kind = .punctuator .equals)
    (hx : IsExpression f (.single [.comma, stop]) c₁ x c') : IsFallback f stop c (some x) c'

/-! ## Parts of patterns -/

/-- The elements of a pattern in brackets from a place on, and what takes the rest. -/
inductive IsElements (f : Frame) :
    Cursor → List (Option (Defaulted Node)) → Option Node → Cursor → Prop
  | close {c : Cursor} : IsElements f c [] none c
  | rest {c c₁ c' : Cursor} {t : Token} {p : Node} (ht : c.Starts t c₁)
    (hellipsis : t.kind = .punctuator .ellipsis) (hp : IsPattern f c₁ p c') :
    IsElements f c [] (some p) c'
  | hole {c c₁ c' : Cursor} {t : Token} {elements : List (Option (Defaulted Node))}
    {rest : Option Node} (ht : c.Starts t c₁) (hcomma : t.kind = .punctuator .comma)
    (h : IsElements f c₁ elements rest c') : IsElements f c (none :: elements) rest c'
  | last {c c₁ c' : Cursor} {p : Node} {fallback : Option Node} (hp : IsPattern f c p c₁)
    (hfallback : IsFallback f .closeBracket c₁ fallback c') :
    IsElements f c [some ⟨p, fallback⟩] none c'
  | item {c c₁ c₂ c₃ c' : Cursor} {t : Token} {p : Node} {fallback : Option Node}
    {elements : List (Option (Defaulted Node))} {rest : Option Node} (hp : IsPattern f c p c₁)
    (hfallback : IsFallback f .closeBracket c₁ fallback c₂) (ht : c₂.Starts t c₃)
    (hcomma : t.kind = .punctuator .comma) (h : IsElements f c₃ elements rest c') :
    IsElements f c (some ⟨p, fallback⟩ :: elements) rest c'

/-- A key, in brackets or as it is written. -/
inductive IsKey (f : Frame) (c : Cursor) : Key Node → Cursor → Prop
  | direct {c' : Cursor} {t : Token} (ht : c.Starts t c') (hname : t.kind.isPropertyName) :
    IsKey f c (.direct t.text) c'
  | computed {c₁ c₂ c' : Cursor} {t u : Token} {x : Node} (ht : c.Starts t c₁)
    (hopen : t.kind = .punctuator .openBracket) (hx : IsExpression f (.whole .closeBracket) c₁ x c₂)
    (hu : c₂.Starts u c') (hclose : u.kind = .punctuator .closeBracket) :
    IsKey f c (.computed x) c'

/-- A property of a pattern in braces. -/
inductive IsProperty (f : Frame) (c : Cursor) : Node → Cursor → Prop
  | shorthand {c₁ c' : Cursor} {t : Token} {fallback : Option Node} (s : Span) (ht : c.Starts t c₁)
    (hname : t.kind.isBindingName) (hfallback : IsFallback f .closeBrace c₁ fallback c') :
    IsProperty f c ⟨s, .patternProperty (.direct t.text) (bindingNode t) fallback true⟩ c'
  | valued {c₁ c₂ c₃ c' : Cursor} {t : Token} {key : Key Node} {p : Node} {fallback : Option Node}
    (s : Span) (hkey : IsKey f c key c₁) (ht : c₁.Starts t c₂)
    (hcolon : t.kind = .punctuator .colon) (hp : IsPattern f c₂ p c₃)
    (hfallback : IsFallback f .closeBrace c₃ fallback c') :
    IsProperty f c ⟨s, .patternProperty key p fallback false⟩ c'

/-- The properties of a pattern in braces from a place on, and what takes the rest. -/
inductive IsProperties (f : Frame) : Cursor → List Node → Option Node → Cursor → Prop
  | close {c : Cursor} : IsProperties f c [] none c
  | rest {c c₁ c' : Cursor} {t u : Token} (ht : c.Starts t c₁)
    (hellipsis : t.kind = .punctuator .ellipsis) (hu : c₁.Starts u c')
    (hname : u.kind.isBindingName) : IsProperties f c [] (some (bindingNode u)) c'
  | last {c c' : Cursor} {p : Node} (hp : IsProperty f c p c') : IsProperties f c [p] none c'
  | next {c c₁ c₂ c' : Cursor} {t : Token} {p : Node} {properties : List Node} {rest : Option Node}
    (hp : IsProperty f c p c₁) (ht : c₁.Starts t c₂) (hcomma : t.kind = .punctuator .comma)
    (h : IsProperties f c₂ properties rest c') : IsProperties f c (p :: properties) rest c'

/-! ### How far they go -/

section

variable {f : Frame} {stop : Punctuator} {c c' : Cursor} {fallback rest : Option Node} {p : Node}
  {elements : List (Option (Defaulted Node))} {key : Key Node} {properties : List Node}

theorem IsFallback.le (h : IsFallback f stop c fallback c') :
    c'.rest.length ≤ c.rest.length := by
  cases h with
  | none => exact le_rfl
  | some ht hequals hx =>
    exact (hx.shorter.trans (ht.shorter hequals)).le

theorem IsKey.shorter (h : IsKey f c key c') : c'.rest.length < c.rest.length := by
  cases h with
  | direct ht hname => exact ht.shorter_name hname
  | computed ht hopen hx hu hclose =>
    exact (hu.shorter hclose).trans (hx.shorter.trans (ht.shorter hopen))

/-- A key that starts with the word of a modifier is that word. -/
theorem IsKey.first (h : IsKey f c key c') : ∃ t c₁, c.Starts t c₁ ∧ t.kind.startsKey ∧
    ((Modifier.ofKind? t.kind).isSome → c₁ = c') := by
  cases h with
  | direct ht hname => exact ⟨_, _, ht, by simp [Kind.startsKey, hname], fun _ => rfl⟩
  | computed ht hopen =>
    refine ⟨_, _, ht, by simp [Kind.startsKey, hopen], fun h => ?_⟩
    rw [hopen] at h
    cases h

theorem IsProperty.first (h : IsProperty f c p c') : ∃ t c₁, c.Starts t c₁ ∧ t.kind.startsKey := by
  cases h with
  | shorthand s ht hname =>
    exact ⟨_, _, ht, by simp [Kind.startsKey, Kind.isPropertyName_of_isBindingName hname]⟩
  | valued s hkey =>
    obtain ⟨t, c₁, ht, hfirst, -⟩ := hkey.first
    exact ⟨t, c₁, ht, hfirst⟩

theorem IsProperty.shorter (h : IsProperty f c p c') : c'.rest.length < c.rest.length := by
  cases h with
  | shorthand s ht hname hfallback =>
    exact hfallback.le.trans_lt (ht.shorter_name (Kind.isPropertyName_of_isBindingName hname))
  | valued s hkey ht hcolon hp hfallback =>
    exact hfallback.le.trans_lt (hp.shorter.trans ((ht.shorter hcolon).trans hkey.shorter))

theorem IsProperties.le (h : IsProperties f c properties rest c') :
    c'.rest.length ≤ c.rest.length := by
  induction h with
  | close => exact le_rfl
  | rest ht hellipsis hu hname =>
    exact ((hu.shorter_name (Kind.isPropertyName_of_isBindingName hname)).trans
      (ht.shorter hellipsis)).le
  | last hp => exact hp.shorter.le
  | next hp ht hcomma _ ih => exact ih.trans ((ht.shorter hcomma).le.trans hp.shorter.le)

theorem IsElements.le (h : IsElements f c elements rest c') :
    c'.rest.length ≤ c.rest.length := by
  induction h with
  | close => exact le_rfl
  | rest ht hellipsis hp => exact (hp.shorter.trans (ht.shorter hellipsis)).le
  | hole ht hcomma _ ih => exact ih.trans (ht.shorter hcomma).le
  | last hp hfallback => exact hfallback.le.trans hp.shorter.le
  | item hp hfallback ht hcomma _ ih =>
    exact ih.trans ((ht.shorter hcomma).le.trans (hfallback.le.trans hp.shorter.le))

end

/-! ## The parts of what was read -/

section

variable {bound depth : Nat} {f : Frame} {r : Reader} {c : Cursor}

theorem gives_expression (f : Frame) (e : Extent) (h : Suffices bound depth c) :
    ((rules bound depth).expression f e).Gives ⟨c, none⟩ fun x r =>
      r.Coherent ∧ IsExpression f e c x.node r.cursor := by
  have hruns {bound depth : Nat} {d : Cursor} (h : Suffices bound depth d) :
      ((rules bound depth).expression f e).Runs ⟨d, none⟩ fun _ r =>
        r.Coherent ∧ r.cursor.rest.length < d.rest.length := by
    obtain ⟨source, hstands⟩ := d.exists_standsIn
    have hgood : Reader.Good source (d.rest.length + 1) ⟨d, none⟩ :=
      ⟨hstands, Reader.coherent_fresh _, Nat.lt_succ_self _⟩
    exact ((h.proceeds source).expression f e hgood).mono fun x r hx =>
      ⟨hx.good.coherent, hstands.length_lt hx.good.standsIn (hx.lt hgood)⟩
  intro x r hx
  have hreads := hruns h
  unfold Runs at hreads
  rw [hx] at hreads
  obtain ⟨hcoherent, hshorter⟩ := hreads
  refine ⟨hcoherent, hshorter, fun {bound' depth' d} h' hcd => ?_⟩
  have h' : Suffices bound' depth' d := h'.mono (hcd.rest ▸ le_rfl)
  exact (answers_of_agrees ((agree_rules bound bound' depth depth').expression f e)
    ((hruns h').mono fun _ _ hy => hy.1) hcd hx).mono fun y hy => hy.node.symm

theorem gives_single (f : Frame) (stops : List Punctuator) (h : Suffices bound depth c) :
    ((rules bound depth).single f stops).Gives ⟨c, none⟩ fun x r =>
      r.Coherent ∧ IsExpression f (.single stops) c x r.cursor :=
  (gives_expression f _ h).bind fun _ _ hx => .pure hx

theorem gives_whole (f : Frame) (stop : Punctuator) (h : Suffices bound depth c) :
    ((rules bound depth).whole f stop).Gives ⟨c, none⟩ fun x r =>
      r.Coherent ∧ IsExpression f (.whole stop) c x r.cursor :=
  (gives_expression f _ h).bind fun _ _ hx => .pure hx

theorem gives_fallback (stop : Punctuator) (h : Suffices bound depth r.cursor)
    (hr : r.Coherent) :
    ((rules bound depth).fallback f stop).Gives r fun fallback r' =>
      r'.Coherent ∧ IsFallback f stop r.cursor fallback r'.cursor := by
  refine .if_tookPunctuator hr (fun t c ht hequals => ?_) fun t c ht _ => ?_
  · have ht := Cursor.starts_punctuator ht hequals
    exact (gives_single f _ (h.mono (ht.shorter hequals).le)).bind fun x r' ⟨hr', hx⟩ =>
      .pure ⟨hr', .some ht hequals hx⟩
  · exact .pure ⟨Reader.coherent_ahead ht, .none⟩

theorem gives_key (h : Suffices bound depth r.cursor) (hr : r.Coherent) :
    (key (rules bound depth) f).Gives r fun k r' => r'.Coherent ∧ IsKey f r.cursor k r'.cursor := by
  refine .if_tookPunctuator hr (fun t c ht hopen => ?_) fun t c ht _ => ?_
  · have ht := Cursor.starts_punctuator ht hopen
    refine (gives_whole f _ (h.mono (ht.shorter hopen).le)).bind fun x r' ⟨hr', hx⟩ => ?_
    exact .bind_expectPunctuator hr' fun u c hu hclose => .pure
      ⟨Reader.coherent_fresh c, .computed ht hopen hx (Cursor.starts_punctuator hu hclose) hclose⟩
  · refine .bind_expectIn (Reader.coherent_ahead ht) fun u c hu hname => .bind .check ?_
    rintro _ _ ⟨-, rfl⟩
    exact .pure ⟨Reader.coherent_fresh c, .direct (Cursor.starts_propertyName hu hname) hname⟩

theorem gives_patternName (kind : Binding) (hr : r.Coherent) :
    (patternName f kind).Gives r fun n r' => r'.Coherent ∧ ∃ t, n = bindingNode t ∧
      t.kind.isBindingName ∧ r.cursor.Starts t r'.cursor := by
  refine .bind_expectIn hr fun t c ht hname => .bind .check ?_
  rintro _ _ ⟨-, rfl⟩
  exact .pure ⟨Reader.coherent_fresh c, t, rfl, hname,
    Cursor.starts_propertyName ht (Kind.isPropertyName_of_isBindingName hname)⟩

/-- What the rules read as a pattern is one. -/
def PatternsCross (bound depth : Nat) (f : Frame) : Prop :=
  ∀ kind (r : Reader), Suffices bound depth r.cursor → r.Coherent →
    ((rules bound depth).pattern f kind).Gives r fun p r' =>
      r'.Coherent ∧ IsPattern f r.cursor p r'.cursor

variable (hpatterns : PatternsCross bound depth f)

include hpatterns

theorem gives_patternElements (kind : Binding) (h : Suffices bound depth r.cursor)
    (hr : r.Coherent) :
    (patternElements (rules bound depth) f kind).Gives r fun (elements, rest) r' =>
      r'.Coherent ∧ IsElements f r.cursor elements rest r'.cursor := by
  refine .bind (.iterate (I := fun _ r => Suffices bound depth r.cursor ∧ r.Coherent)
    (T := fun read r x r' => r'.Coherent ∧ ∃ elements,
      x.1 = elements.reverse ++ read ∧ IsElements f r.cursor elements x.2 r'.cursor)
    (fun read r ⟨h, hr⟩ => ?_) _ ⟨h, hr⟩) ?_
  · refine .if_atPunctuator hr (fun t c ht _ => .pure ⟨Reader.coherent_ahead ht, [], rfl, .close⟩)
      fun t c ht _ => ?_
    have hr := Reader.coherent_ahead ht
    refine .if_tookPunctuator hr (fun u c₁ hu hellipsis => ?_) fun u c₁ hu _ => ?_
    · have hu := Cursor.starts_punctuator hu hellipsis
      have hc₁ : Suffices bound depth c₁ := h.mono (hu.shorter hellipsis).le
      exact (hpatterns kind ⟨c₁, none⟩ hc₁ (Reader.coherent_fresh c₁)).bind fun p r' ⟨hr', hp⟩ =>
        .pure ⟨hr', [], rfl, .rest hu hellipsis hp⟩
    have hr := Reader.coherent_ahead hu
    refine .if_tookPunctuator hr (fun u c₁ hu hcomma => ?_) fun u c₁ hu _ => ?_
    · have hu := Cursor.starts_punctuator hu hcomma
      refine .pure ⟨⟨h.mono (hu.shorter hcomma).le, Reader.coherent_fresh c₁⟩, ?_⟩
      rintro x r' ⟨hr', elements, hx, helements⟩
      exact ⟨hr', none :: elements, by simpa using hx, .hole hu hcomma helements⟩
    have hr := Reader.coherent_ahead hu
    refine (hpatterns kind ⟨_, some ⟨u, .division, c₁⟩⟩ h hr).bind fun p r₁ ⟨hr₁, hp⟩ => ?_
    refine (gives_fallback .closeBracket (h.mono hp.shorter.le) hr₁).bind
      fun fallback r₂ ⟨hr₂, hfallback⟩ => ?_
    refine .if_tookPunctuator hr₂ (fun u c₃ hu hcomma => ?_) fun u c₃ hu _ => ?_
    · have hu := Cursor.starts_punctuator hu hcomma
      have hle := (hu.shorter hcomma).le.trans (hfallback.le.trans hp.shorter.le)
      refine .pure ⟨⟨h.mono hle, Reader.coherent_fresh c₃⟩, ?_⟩
      rintro x r' ⟨hr', elements, hx, helements⟩
      exact ⟨hr', some ⟨p, fallback⟩ :: elements, by simpa using hx,
        .item hp hfallback hu hcomma helements⟩
    · exact .pure ⟨Reader.coherent_ahead hu, [some ⟨p, fallback⟩], rfl, .last hp hfallback⟩
  · rintro ⟨reversed, rest⟩ r' ⟨hr', elements, rfl, helements⟩
    exact .pure ⟨hr', by simpa using helements⟩

theorem gives_patternProperty (kind : Binding) {first : Token} (h : Suffices bound depth r.cursor)
    (hr : r.Coherent) (hfirst : r.cursor.next .division = .ok (first, c)) :
    (patternProperty (rules bound depth) f kind first).Gives r fun n r' =>
      r'.Coherent ∧ IsProperty f r.cursor n r'.cursor := by
  refine (gives_key h hr).bind fun key r₁ ⟨hr₁, hkey⟩ => ?_
  extract_lets goesOn
  have hgoesOn (target : Node) (shorthand : Bool) {r₂ : Reader}
      (hr₂ : r₂.Coherent) (h₂ : Suffices bound depth r₂.cursor) :
      (goesOn (target, shorthand)).Gives r₂ fun n r' => r'.Coherent ∧ ∃ s fallback,
        n = ⟨s, .patternProperty key target fallback shorthand⟩ ∧
          IsFallback f .closeBrace r₂.cursor fallback r'.cursor :=
    (gives_fallback .closeBrace h₂ hr₂).bind fun fallback r' ⟨hr', hfallback⟩ =>
      .pure ⟨hr', _, fallback, rfl, hfallback⟩
  have h₁ := h.mono hkey.shorter.le
  refine .if_tookPunctuator hr₁ (fun t c₂ ht hcolon => ?_) fun t c₂ ht _ => ?_
  · have ht := Cursor.starts_punctuator ht hcolon
    have h₂ : Suffices bound depth c₂ := h₁.mono (ht.shorter hcolon).le
    refine (hpatterns kind ⟨c₂, none⟩ h₂ (Reader.coherent_fresh c₂)).bind
      fun target r₃ ⟨hr₃, hp⟩ => ?_
    refine (hgoesOn target false hr₃ (h₂.mono hp.shorter.le)).mono ?_
    rintro _ r' ⟨hr', s, fallback, rfl, hfallback⟩
    exact ⟨hr', .valued s hkey ht hcolon hp hfallback⟩
  · have hr₁ := Reader.coherent_ahead ht
    cases hkey with
    | computed => exact .bind_peek hr₁ fun _ _ _ => .bind_fails .unexpected
    | @direct _ t ht hname =>
      obtain ⟨rfl, rfl⟩ : t = first ∧ r₁.cursor = c := by simpa [hfirst, eq_comm] using ht .division
      refine .ite (fun hname => .bind .check ?_) fun _ =>
        .bind_peek hr₁ fun _ _ _ => .bind_fails .unexpected
      rintro _ _ ⟨-, rfl⟩
      refine (hgoesOn (bindingNode t) true hr₁ h₁).mono ?_
      rintro _ r' ⟨hr', s, fallback, rfl, hfallback⟩
      exact ⟨hr', .shorthand s ht hname hfallback⟩

theorem gives_patternProperties (kind : Binding) (h : Suffices bound depth r.cursor)
    (hr : r.Coherent) :
    (patternProperties (rules bound depth) f kind).Gives r fun (properties, rest) r' =>
      r'.Coherent ∧ IsProperties f r.cursor properties rest r'.cursor := by
  refine .bind (.iterate (I := fun _ r => Suffices bound depth r.cursor ∧ r.Coherent)
    (T := fun read r x r' => r'.Coherent ∧ ∃ properties,
      x.1 = properties.reverse ++ read ∧ IsProperties f r.cursor properties x.2 r'.cursor)
    (fun read r ⟨h, hr⟩ => ?_) _ ⟨h, hr⟩) ?_
  · refine .bind_peek hr fun first c hfirst => ?_
    have hr := Reader.coherent_ahead hfirst
    refine .ite (fun _ => .pure ⟨hr, [], rfl, .close⟩) fun _ => ?_
    refine .if_tookPunctuator hr (fun u c₁ hu hellipsis => ?_) fun u c₁ hu _ => ?_
    · have hu := Cursor.starts_punctuator hu hellipsis
      refine (gives_patternName kind (Reader.coherent_fresh c₁)).bind ?_
      rintro _ r' ⟨hr', t, rfl, hname, ht⟩
      exact .pure ⟨hr', [], rfl, .rest hu hellipsis ht hname⟩
    have hr := Reader.coherent_ahead hu
    refine (gives_patternProperty hpatterns kind (r := ⟨_, some ⟨u, .division, c₁⟩⟩) h hr
      hfirst).bind fun p r₁ ⟨hr₁, hp⟩ => ?_
    refine .if_tookPunctuator hr₁ (fun u c₂ hu hcomma => ?_) fun u c₂ hu _ => ?_
    · have hu := Cursor.starts_punctuator hu hcomma
      refine .pure ⟨⟨h.mono ((hu.shorter hcomma).le.trans hp.shorter.le), Reader.coherent_fresh c₂⟩,
        ?_⟩
      rintro x r' ⟨hr', properties, hx, hproperties⟩
      exact ⟨hr', p :: properties, by simpa using hx, .next hp hu hcomma hproperties⟩
    · exact .pure ⟨Reader.coherent_ahead hu, [p], rfl, .last hp⟩
  · rintro ⟨reversed, rest⟩ r' ⟨hr', properties, rfl, hproperties⟩
    exact .pure ⟨hr', by simpa using hproperties⟩

end

end Grammar

end ScriptMin
