import ScriptMin.Layout.Basic

/-!
# How far a pen is

A pen is *looser* than another one if it is kept from nothing that the other one is not kept from,
and *below* it if it has written less, or no more and is looser. What is shorter can afford the one
blank that it may need before the next token, so two pens that write the same stay below one
another.
-/

namespace ScriptMin.Layout

/-! ## Pens -/

/-- A character that nothing after it has to be kept apart from. -/
def isFree (c : Char) : Bool :=
  !continuesToken c && c != '+' && c != '-' && c != '/' && c != '<'

theorem joins_eq_false {last first : Char} (h : isFree last) : joins last first = false := by
  simp only [isFree, Bool.and_eq_true, bne_iff_ne] at h
  unfold joins
  split <;> simp_all

namespace Pen

/-- How much has been written. -/
def length (pen : Pen) : Nat := pen.written.length

/-- Whether what has been written ends in two hyphens. -/
def endsInDashes (pen : Pen) : Bool :=
  pen.written.head? == some '-' && pen.written.tail.head? == some '-'

/-- Whether what has been written ends in a regular expression. -/
def endsInRegex (pen : Pen) : Bool := pen.afterRegex && !pen.written.isEmpty

theorem needsBlank_eq (pen : Pen) (first : Char) :
    pen.needsBlank first = (continuesToken first && pen.endsInRegex ||
      (pen.written.head?.any fun last =>
        continuesToken first && continuesToken last || joins last first) ||
      first == '>' && pen.endsInDashes) := by
  obtain ⟨- | ⟨last, before⟩, depth, afterRegex⟩ := pen
  · simp [needsBlank, endsInDashes, endsInRegex]
  · simp [needsBlank, endsInDashes, endsInRegex, Bool.and_assoc, Bool.and_or_distrib_left,
      Bool.or_assoc]

/-- A pen that is kept from nothing that `pen` is not kept from. -/
structure Looser (pen pen' : Pen) : Prop where
  afterRegex : pen'.afterRegex → pen.afterRegex
  started : pen'.written ≠ [] → pen.written ≠ []
  last : pen'.written.head? = pen.written.head? ∧ (pen'.endsInDashes → pen.endsInDashes) ∨
    pen'.written.head?.all isFree

namespace Looser

variable {pen pen' : Pen}

theorem refl (pen : Pen) : Looser pen pen := ⟨id, id, .inl ⟨rfl, id⟩⟩

theorem trans {a b c : Pen} (h : Looser a b) (h' : Looser b c) : Looser a c := by
  refine ⟨h.afterRegex ∘ h'.afterRegex, h.started ∘ h'.started, ?_⟩
  obtain ⟨hlast', hdashes'⟩ | hfree := h'.last
  · rw [hlast']
    exact h.last.imp_left fun ⟨hlast, hdashes⟩ => ⟨hlast, hdashes ∘ hdashes'⟩
  · exact .inr hfree

/-- A hyphen is not free. -/
theorem head_eq (h : Looser pen pen') (hdash : pen'.written.head? = some '-') :
    pen.written.head? = some '-' := by
  obtain ⟨hlast, -⟩ | hfree := h.last
  · exact hlast.symm.trans hdash
  · rw [hdash] at hfree
    cases hfree

theorem endsInDashes (h : Looser pen pen') (hdashes : pen'.endsInDashes) : pen.endsInDashes := by
  obtain ⟨-, hkeeps⟩ | hfree := h.last
  · exact hkeeps hdashes
  · simp only [Pen.endsInDashes, Bool.and_eq_true, beq_iff_eq] at hdashes
    rw [hdashes.1] at hfree
    cases hfree

theorem endsInRegex (h : Looser pen pen') (hregex : pen'.endsInRegex) : pen.endsInRegex := by
  simp only [Pen.endsInRegex, Bool.and_eq_true, Bool.not_eq_true', List.isEmpty_eq_false_iff]
    at hregex ⊢
  exact hregex.imp h.afterRegex h.started

theorem needsBlank (h : Looser pen pen') {first : Char} (hblank : pen'.needsBlank first) :
    pen.needsBlank first := by
  rw [needsBlank_eq] at hblank ⊢
  simp only [Bool.or_eq_true, Bool.and_eq_true] at hblank ⊢
  refine hblank.imp (Or.imp (And.imp_right h.endsInRegex) fun hhead => ?_)
    (And.imp_right h.endsInDashes)
  obtain ⟨hlast, -⟩ | hfree := h.last
  · rwa [hlast] at hhead
  · obtain ⟨c, hc, hkept⟩ := Option.any_eq_true _ _ |>.1 hhead
    have hfree : isFree c := by simpa [hc] using hfree
    have hcontinues : continuesToken c = false := by simp_all [isFree]
    simp [joins_eq_false hfree, hcontinues] at hkept

end Looser

/-! ### Texts -/

section Texts

variable {pen pen' : Pen}

theorem written_glue (pen : Pen) (text : List Char) :
    (pen.glue text).written = text.reverse ++ pen.written := List.reverseAux_eq

theorem length_glue (pen : Pen) (text : List Char) :
    (pen.glue text).length = pen.length + text.length := by
  simp [length, written_glue, Nat.add_comm]

/-- The same text behind both. -/
theorem Looser.glue (h : Looser pen pen') (text : List Char) :
    Looser (pen.glue text) (pen'.glue text) := by
  refine ⟨id, ?_, ?_⟩
  · simp only [written_glue, ne_eq, List.append_eq_nil_iff, not_and]
    exact fun hstarted htext => h.started (hstarted htext)
  simp only [Pen.endsInDashes, written_glue]
  rcases text.reverse with - | ⟨c, - | ⟨second, rest⟩⟩
  · exact h.last
  · refine .inl ⟨rfl, ?_⟩
    simp only [List.singleton_append, List.head?_cons, List.tail_cons, Bool.and_eq_true, beq_iff_eq]
    exact fun ⟨hc, hdash⟩ => ⟨hc, h.head_eq hdash⟩
  · exact .inl ⟨rfl, id⟩

/-- What a token is written behind. -/
def before (pen : Pen) (first : Char) : List Char :=
  if pen.needsBlank first then ' ' :: pen.written else pen.written

theorem written_token (pen : Pen) (first : Char) (rest : List Char) :
    (pen.token (first :: rest)).written = (first :: rest).reverse ++ pen.before first := by
  simp only [token, before]
  split <;> exact written_glue _ _

theorem afterRegex_token (pen : Pen) (text : List Char) : (pen.token text).afterRegex = false := by
  cases text with
  | nil => rfl
  | cons first rest =>
    simp only [token]
    split <;> rfl

theorem length_token (pen : Pen) (first : Char) (rest : List Char) :
    (pen.token (first :: rest)).length =
      pen.length + (first :: rest).length + if pen.needsBlank first then 1 else 0 := by
  rw [length, written_token, List.length_append, List.length_reverse]
  unfold before length
  split
  · simp only [List.length_cons]
    omega
  · omega

/-- A hyphen is kept from the one before it. -/
theorem head_before_hyphen (pen : Pen) : (pen.before '-').head? ≠ some '-' := by
  unfold before
  split
  case isTrue => simp
  case isFalse hblank =>
    intro hdash
    refine hblank ?_
    simp [needsBlank_eq, hdash, joins]

/-- So what ends in two hyphens behind a token is the token. -/
theorem looser_token (pen pen' : Pen) (first : Char) (rest : List Char) :
    Looser (pen.token (first :: rest)) (pen'.token (first :: rest)) := by
  refine ⟨by simp [afterRegex_token], by simp [written_token], .inl ?_⟩
  simp only [endsInDashes, written_token]
  rcases h : (first :: rest).reverse with - | ⟨c, - | ⟨second, others⟩⟩
  · simp at h
  · obtain ⟨rfl, rfl⟩ : first = c ∧ rest = [] := by
      have := congrArg List.reverse h
      simpa using this
    refine ⟨rfl, ?_⟩
    simp only [List.singleton_append, List.head?_cons, List.tail_cons, Bool.and_eq_true, beq_iff_eq,
      Option.some.injEq]
    rintro ⟨rfl, hdash⟩
    exact absurd hdash (head_before_hyphen pen')
  · exact ⟨rfl, id⟩

end Texts

/-! ### Comparing pens -/

/-- The pen `pen'` is less than `k` characters ahead of `pen`, or `k` characters with nothing more
kept apart from it. -/
def Below (k : Int) (pen pen' : Pen) : Prop :=
  pen'.length < pen.length + k ∨ pen'.length ≤ pen.length + k ∧ Looser pen pen'

namespace Below

variable {k j : Int} {pen pen' : Pen}

theorem refl (pen : Pen) : Below 0 pen pen := .inr ⟨by omega, .refl pen⟩

theorem length_le (h : Below k pen pen') : (pen'.length : Int) ≤ pen.length + k :=
  h.elim Int.le_of_lt And.left

theorem trans {a b c : Pen} (h : Below k a b) (h' : Below j b c) : Below (k + j) a c := by
  obtain hlt | ⟨hle, hlooser⟩ := h
  · have := h'.length_le
    exact .inl (by omega)
  · obtain hlt' | ⟨hle', hlooser'⟩ := h'
    · exact .inl (by omega)
    · exact .inr ⟨by omega, hlooser.trans hlooser'⟩

theorem glue (h : Below k pen pen') (text : List Char) :
    Below k (pen.glue text) (pen'.glue text) := by
  unfold Below
  rw [length_glue, length_glue]
  exact h.imp (fun h => by omega) fun h => ⟨by omega, h.2.glue text⟩

/-- What is shorter can afford the blank before a token. -/
theorem token (h : Below k pen pen') (text : List Char) :
    Below k (pen.token text) (pen'.token text) := by
  cases text with
  | nil => exact h.glue []
  | cons first rest =>
    refine .inr ⟨?_, looser_token pen pen' first rest⟩
    rw [length_token, length_token]
    obtain hlt | ⟨hle, hlooser⟩ := h
    · split <;> split <;> omega
    · have hblank : pen'.needsBlank first → pen.needsBlank first := hlooser.needsBlank
      split <;> split <;> first | omega | simp_all

/-- The same item behind both. -/
theorem item (h : Below k pen pen') (i : Item) :
    Below k (pen.item .compact i) (pen'.item .compact i) := by
  cases i with
  | token text => exact h.token text
  | glued text => exact h.glue text
  | regex text =>
    exact (h.token text).imp id fun ⟨hle, hlooser⟩ =>
      ⟨hle, fun _ => rfl, hlooser.started, hlooser.last⟩
  | semicolon style =>
    cases style with
    | compact => exact h.token [';']
    | spacious => exact h
  | space | newline => exact h
  | indent | dedent =>
    exact h.imp id fun ⟨hle, hlooser⟩ =>
      ⟨hle, hlooser.afterRegex, hlooser.started, hlooser.last⟩

end Below

/-- A pen that has written a layout in the compact style. -/
def run (pen : Pen) (l : Layout) : Pen := l.foldl (Pen.item .compact) pen

theorem run_append (pen : Pen) (l l' : Layout) : pen.run (l ++ l') = (pen.run l).run l' :=
  List.foldl_append

theorem Below.run {k : Int} {pen pen' : Pen} (h : Below k pen pen') (l : Layout) :
    Below k (pen.run l) (pen'.run l) := by
  induction l generalizing pen pen' with
  | nil => exact h
  | cons i rest ih => exact ih (h.item i)

/-- Nothing that has been written goes away. -/
theorem length_le_run (pen : Pen) (l : Layout) : pen.length ≤ (pen.run l).length := by
  -- One text, then one item, then a layout.
  have htoken (pen : Pen) (text : List Char) : pen.length ≤ (pen.token text).length := by
    cases text with
    | nil => exact Nat.le_refl _
    | cons first rest =>
      rw [length_token]
      omega
  have hitem (pen : Pen) (i : Item) : pen.length ≤ (pen.item .compact i).length := by
    cases i with
    | token text | regex text => exact htoken pen text
    | glued text => exact length_glue pen text ▸ Nat.le_add_right _ _
    | semicolon style => cases style <;> first | exact htoken pen [';'] | exact Nat.le_refl _
    | space | newline | indent | dedent => exact Nat.le_refl _
  induction l generalizing pen with
  | nil => exact Nat.le_refl _
  | cons i rest ih => exact Nat.le_trans (hitem pen i) (ih _)

end Pen

end ScriptMin.Layout
