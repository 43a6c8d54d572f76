import ScriptMin.Proofs.Layout.Pen

/-!
# Layouts that are no longer

What a layout adds to a text depends on what stands before it: a blank is written where two tokens
would run together. So one layout is compared to another behind every text. It *shrinks* to one that
writes less, or that writes no more and ends in no character that keeps more of what follows apart.
Layouts may be exchanged for what they shrink to within other layouts.
-/

namespace ScriptMin.Layout

/-! ## Layouts -/

/-- Behind every text, `l'` comes to no more than `l`. -/
def Shrinks (l l' : Layout) : Prop := ∀ pen : Pen, Pen.Below 0 (pen.run l) (pen.run l')

namespace Shrinks

variable {a b c d l l' : Layout}

theorem refl (l : Layout) : Shrinks l l := fun _ => .refl _

theorem trans (h : Shrinks a b) (h' : Shrinks b c) : Shrinks a c :=
  fun pen => (h pen).trans (h' pen)

theorem append (h : Shrinks a b) (h' : Shrinks c d) : Shrinks (a ++ c) (b ++ d) := by
  intro pen
  rw [Pen.run_append, Pen.run_append]
  exact ((h pen).run c).trans (h' (pen.run b))

/-- A text is no longer in a layout that the other one shrinks to. -/
theorem length_render_le (h : Shrinks l l') :
    (l'.render .compact).length ≤ (l.render .compact).length := by
  simp only [render, List.length_reverse]
  have := (h .start).length_le
  rw [Int.add_zero] at this
  exact Int.ofNat_le.1 this

/-- What is always shorter. -/
theorem of_length_lt (h : ∀ pen : Pen, (pen.run l').length < (pen.run l).length) : Shrinks l l' :=
  fun pen => .inl (by rw [Int.add_zero]; exact Int.ofNat_lt.2 (h pen))

/-- A text is left out, with all that is behind it. -/
theorem drop (first : Char) (rest : List Char) (l : Layout) :
    Shrinks (.token (first :: rest) :: l) [] := by
  refine of_length_lt fun pen => Nat.lt_of_lt_of_le ?_ (Pen.length_le_run _ l)
  show pen.length < (pen.token (first :: rest)).length
  rw [Pen.length_token]
  simp only [List.length_cons]
  omega

end Shrinks

/-! ### Marks -/

/-- A character that is written right behind everything, and that nothing after it has to be kept
apart from. -/
def isMark (c : Char) : Bool := isFree c && c != '*' && c != '!' && c != '>'

theorem isFree_of_isMark {c : Char} (h : isMark c) : isFree c := by
  simp only [isMark, Bool.and_eq_true] at h
  exact h.1.1.1

theorem needsBlank_eq_false {c : Char} (h : isMark c) (pen : Pen) : pen.needsBlank c = false := by
  simp only [isMark, isFree, Bool.and_eq_true, Bool.not_eq_true', bne_iff_ne] at h
  have hjoins (last : Char) : joins last c = false := by
    unfold joins
    split <;> simp_all
  simp [Pen.needsBlank_eq, hjoins, h]

/-- A pen that nothing has to be kept apart from. -/
def Pen.IsFree (pen : Pen) : Prop :=
  pen.afterRegex = false ∧ pen.written ≠ [] ∧ pen.written.head?.all isFree

section Marks

variable {l l' : Layout} {c c' : Char}

theorem length_mark (hc : isMark c) (pen : Pen) :
    (pen.run [.token [c]]).length = pen.length + 1 := by
  show (pen.token [c]).length = _
  rw [Pen.length_token, needsBlank_eq_false hc]
  rfl

theorem isFree_mark (hc : isMark c) (pen : Pen) : (pen.run [.token [c]]).IsFree := by
  have hwritten : (pen.run [.token [c]]).written = c :: pen.before c := Pen.written_token pen c []
  refine ⟨Pen.afterRegex_token pen [c], ?_, ?_⟩ <;> simp [hwritten, isFree_of_isMark hc]

/-- Every pen that has written something is kept from more than a free one. -/
theorem Pen.IsFree.looser {pen pen' : Pen} (h : pen'.IsFree) (hpen : pen.written ≠ []) :
    Looser pen pen' :=
  ⟨fun hregex => absurd hregex (by simp [h.1]), fun _ => hpen, .inr h.2.2⟩

namespace Shrinks

/-- What is no longer, up to a mark. -/
theorem closed (h : ∀ pen : Pen, (pen.run l').length ≤ (pen.run l).length) (hc : isMark c)
    (hc' : isMark c') : Shrinks (l ++ [.token [c]]) (l' ++ [.token [c']]) := by
  intro pen
  rw [Pen.run_append, Pen.run_append]
  refine .inr ⟨?_, (isFree_mark hc' _).looser (isFree_mark hc _).2.1⟩
  rw [length_mark hc, length_mark hc']
  have := h pen
  omega

/-- One mark in the place of another. -/
theorem mark (hc : isMark c) (hc' : isMark c') : Shrinks [.token [c]] [.token [c']] :=
  @closed [] [] c c' (fun _ => Nat.le_refl _) hc hc'

end Shrinks

end Marks

/-! ### Widths -/

/-- A pen that has written a blank. -/
def Pen.blank : Pen := ⟨[' '], 0, false⟩

theorem Pen.length_blank : blank.length = 1 := rfl

theorem Pen.isFree_blank : blank.IsFree := ⟨rfl, by simp [blank], rfl⟩

theorem Pen.needsBlank_blank (first : Char) : blank.needsBlank first = false := by
  have hjoins : joins ' ' first = false := joins_eq_false rfl
  have hcontinues : continuesToken ' ' = false := rfl
  simp [needsBlank_eq, blank, endsInRegex, endsInDashes, hjoins, hcontinues]

/-- How much a layout is by itself. Nothing has to be kept apart from the blank before it. -/
def width (l : Layout) : Nat := (Pen.blank.run l).length - Pen.blank.length

theorem length_blank_run (l : Layout) : (Pen.blank.run l).length = 1 + width l := by
  have := Pen.length_le_run .blank l
  rw [width, Pen.length_blank] at *
  omega

section Widths

variable (pen : Pen) (l l' : Layout)

/-- Behind another text a layout takes at most one blank more. -/
theorem length_run_le : (pen.run l).length ≤ pen.length + width l + 1 := by
  have hbelow : Pen.Below pen.length .blank pen := .inl (by rw [Pen.length_blank]; omega)
  have := (hbelow.run l).length_le
  rw [length_blank_run] at this
  omega

theorem length_run_le_of_isFree {pen : Pen} (h : pen.IsFree) :
    (pen.run l).length ≤ pen.length + width l := by
  have hbelow : Pen.Below (pen.length - 1) .blank pen :=
    .inr ⟨by rw [Pen.length_blank]; omega, h.looser Pen.isFree_blank.2.1⟩
  have := (hbelow.run l).length_le
  rw [length_blank_run] at this
  omega

theorem le_length_run {pen : Pen} (h : pen.written ≠ []) :
    pen.length + width l ≤ (pen.run l).length := by
  have hbelow : Pen.Below (1 - pen.length) pen .blank :=
    .inr ⟨by rw [Pen.length_blank]; omega, Pen.isFree_blank.looser h⟩
  have := (hbelow.run l).length_le
  rw [length_blank_run] at this
  omega

@[simp]
theorem width_nil : width [] = 0 := rfl

theorem width_token (text : List Char) : width [.token text] = text.length := by
  have : (Pen.blank.token text).length = 1 + text.length := by
    cases text with
    | nil => rfl
    | cons first rest =>
      rw [Pen.length_token, Pen.needsBlank_blank, Pen.length_blank]
      rfl
  have := (length_blank_run [.token text]).symm.trans this
  omega

theorem width_append_le : width (l ++ l') ≤ width l + width l' + 1 := by
  have := length_run_le (.run .blank l) l'
  rw [← Pen.run_append, length_blank_run, length_blank_run] at this
  omega

theorem le_width_append : width l + width l' ≤ width (l ++ l') := by
  have hwritten : (Pen.blank.run l).written ≠ [] := by
    rw [← List.length_pos_iff]
    exact Nat.lt_of_lt_of_le Nat.one_pos (Pen.length_le_run .blank l)
  have := le_length_run l' hwritten
  rw [← Pen.run_append, length_blank_run, length_blank_run] at this
  omega

/-- No blank stands beside a mark. -/
theorem width_append_mark {c : Char} (hc : isMark c) :
    width (l ++ .token [c] :: l') = width l + 1 + width l' := by
  have hfree := isFree_mark hc (Pen.blank.run l)
  have hle := length_run_le_of_isFree l' hfree
  have hge := le_length_run l' hfree.2.1
  rw [length_mark hc, ← Pen.run_append, ← Pen.run_append, List.singleton_append, length_blank_run,
    length_blank_run] at hle hge
  omega

theorem width_parenthesised (l : Layout) : width (parenthesised l) = width l + 2 := by
  have hclose := width_append_mark (mark .openParenthesis ++ l) [] (c := ')') rfl
  have hopen := width_append_mark [] l (c := '(') rfl
  rw [width_nil] at hclose hopen
  show width (mark .openParenthesis ++ l ++ mark .closeParenthesis) = _
  have h : width (mark .openParenthesis ++ l) = 0 + 1 + width l := hopen
  have h' : width (mark .openParenthesis ++ l ++ mark .closeParenthesis) = _ := hclose
  omega

/-- What starts with a text is longer behind every text if it is wider by more than a blank. -/
theorem Shrinks.of_width {first : Char} {rest : List Char}
    (h : width l' + 1 < width (.token (first :: rest) :: l)) :
    Shrinks (.token (first :: rest) :: l) l' := by
  refine .of_length_lt fun pen => Nat.lt_of_le_of_lt (length_run_le pen l') ?_
  have hbelow : Pen.Below (1 - pen.length) (pen.token (first :: rest))
      (Pen.blank.token (first :: rest)) := by
    refine .inr ⟨?_, Pen.looser_token _ _ first rest⟩
    rw [Pen.length_token, Pen.length_token, Pen.needsBlank_blank, Pen.length_blank,
      if_neg Bool.false_ne_true]
    omega
  have hle := (hbelow.run l).length_le
  have hwidth : ((Pen.blank.token (first :: rest)).run l).length = _ :=
    length_blank_run (.token (first :: rest) :: l)
  show _ < ((pen.token (first :: rest)).run l).length
  omega

end Widths

/-! ### What the compact style writes -/

/-- What the compact style makes of a piece. -/
def Item.compacted? : Item → Option Item
  | .semicolon .compact => some (.token [';'])
  | .semicolon .spacious | .space | .newline | .indent | .dedent => none
  | .token text => some (.token text)
  | .glued text => some (.glued text)
  | .regex text => some (.regex text)

/-- The pieces of a layout that the compact style writes. -/
def compacted (l : Layout) : Layout := l.filterMap Item.compacted?

@[simp]
theorem compacted_append (l l' : Layout) : compacted (l ++ l') = compacted l ++ compacted l' :=
  List.filterMap_append

@[simp]
theorem compacted_nil : compacted [] = [] := rfl

section Compacted

variable (text : List Char) (l : Layout)

@[simp]
theorem compacted_token : compacted (.token text :: l) = .token text :: compacted l := rfl

@[simp]
theorem compacted_space : compacted (.space :: l) = compacted l := rfl

@[simp]
theorem compacted_newline : compacted (.newline :: l) = compacted l := rfl

@[simp]
theorem compacted_semicolon_compact :
    compacted (.semicolon .compact :: l) = .token [';'] :: compacted l := rfl

@[simp]
theorem compacted_semicolon_spacious : compacted (.semicolon .spacious :: l) = compacted l := rfl

@[simp]
theorem compacted_indented : compacted (indented l) = compacted l := by
  simp only [indented, compacted_append]
  exact (List.append_nil _).trans (List.nil_append _)

@[simp]
theorem compacted_mark (p : Punctuator) : compacted (mark p) = mark p := rfl

@[simp]
theorem compacted_word (w : Word) : compacted (word w) = word w := rfl

@[simp]
theorem compacted_when (condition : Bool) :
    compacted (when condition l) = when condition (compacted l) := by
  cases condition <;> rfl

end Compacted

theorem Pen.Below.compacted {pen pen' : Pen} (h : Below 0 pen pen') (h' : Below 0 pen' pen)
    (l : Layout) :
    Below 0 (pen.run l) (pen'.run (compacted l)) ∧
      Below 0 (pen'.run (compacted l)) (pen.run l) := by
  induction l generalizing pen pen' with
  | nil => exact ⟨h, h'⟩
  | cons i rest ih =>
    cases i with
    | token | glued | regex => exact ih (h.item _) (h'.item _)
    | semicolon style =>
      cases style with
      | compact => exact ih (h.token [';']) (h'.token [';'])
      | spacious => exact ih h h'
    | space | newline => exact ih h h'
    | indent | dedent =>
      refine ih (h.imp id fun ⟨hle, hlooser⟩ => ⟨hle, ?_⟩)
        (h'.imp id fun ⟨hle, hlooser⟩ => ⟨hle, ?_⟩)
      all_goals exact ⟨hlooser.afterRegex, hlooser.started, hlooser.last⟩

/-- Where a text may be spread out counts for nothing in the compact style. -/
theorem shrinks_compacted_iff {l l' : Layout} :
    Shrinks (compacted l) (compacted l') ↔ Shrinks l l' := by
  have hwrites (l : Layout) : Shrinks l (compacted l) ∧ Shrinks (compacted l) l :=
    forall_and.1 fun pen => (Pen.Below.refl pen).compacted (.refl pen) l
  exact ⟨fun h => ((hwrites l).1.trans h).trans (hwrites l').2,
    fun h => ((hwrites l).2.trans h).trans (hwrites l').1⟩

theorem width_compacted (l : Layout) : width (compacted l) = width l := by
  obtain ⟨h, h'⟩ := (Pen.Below.refl .blank).compacted (.refl .blank) l
  have hle := h.length_le
  have hge := h'.length_le
  rw [length_blank_run, length_blank_run] at hle hge
  omega

/-! ### Layouts that write something -/

/-- A layout that starts with a token. -/
def Starts (l : Layout) : Prop :=
  ∃ first rest l', compacted l = .token (first :: rest) :: l'

/-- What is written may be left out. -/
theorem Starts.drop {l : Layout} (h : Starts l) : Shrinks l [] := by
  obtain ⟨first, rest, after, hl⟩ := h
  rw [← shrinks_compacted_iff, hl]
  exact .drop first rest after

end ScriptMin.Layout
