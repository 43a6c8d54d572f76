import Mathlib.Data.List.Infix
import Mathlib.Data.List.TakeWhile
import ScriptMin.Token.Lexer

/-!
# The longest entry that a text starts with

The lexer tells a punctuator or a word of the language by the longest entry of a table that the text
starts with (`longestPrefix?`). For punctuators that is all there is to it. A word of the table may
be only the start of a name, so what follows it decides; `classifiedWord_eq` shows that this comes
to reading the whole run of name characters first and looking it up in the table afterwards.
-/

namespace ScriptMin

open Source

/-! ## Search in a table -/

section

variable {α : Type} {spelling : α → List Char} {text : List Char}

/-- What is found among some entries: one of those that the text starts with, as long as any. -/
structure IsLongestPrefix (spelling : α → List Char) (text : List Char) (entries : List α)
    (best : Option α) : Prop where
  found : ∀ a ∈ best, a ∈ entries ∧ spelling a <+: text
  bound : ∀ b ∈ entries, spelling b <+: text →
    ∃ a ∈ best, (spelling b).length ≤ (spelling a).length

/-- One more entry is taken into account. -/
theorem IsLongestPrefix.keepLonger {seen : List α} {best : Option α}
    (h : IsLongestPrefix spelling text seen best) (a : α) :
    IsLongestPrefix spelling text (seen ++ [a]) (keepLonger spelling text best a) := by
  unfold ScriptMin.keepLonger
  split
  case isTrue htaken =>
    obtain ⟨hstarts, hlonger⟩ := Bool.and_eq_true_iff.1 htaken
    constructor
    case found =>
      rintro _ ⟨⟩
      exact ⟨by simp, List.isPrefixOf_iff_prefix.1 hstarts⟩
    case bound =>
      intro b hb hbstarts
      refine ⟨a, rfl, ?_⟩
      rcases List.mem_append.1 hb with hseen | hlast
      · obtain ⟨best', rfl, hle⟩ := h.bound b hseen hbstarts
        have hlt : (spelling best').length < (spelling a).length := by simpa using hlonger
        omega
      · obtain rfl := List.mem_singleton.1 hlast
        exact Nat.le_refl _
  case isFalse hkept =>
    constructor
    case found => exact fun b hb => ⟨List.mem_append_left _ (h.found b hb).1, (h.found b hb).2⟩
    case bound =>
      intro b hb hbstarts
      rcases List.mem_append.1 hb with hseen | hlast
      · exact h.bound b hseen hbstarts
      · obtain rfl := List.mem_singleton.1 hlast
        -- the text starts with the entry, so it was left for one that is as long
        cases best with
        | none => simp [hbstarts] at hkept
        | some best =>
          refine ⟨best, rfl, ?_⟩
          simpa [hbstarts] using hkept

theorem isLongestPrefix_foldl (entries : List α) {seen : List α} {best : Option α}
    (h : IsLongestPrefix spelling text seen best) :
    IsLongestPrefix spelling text (seen ++ entries)
      (entries.foldl (ScriptMin.keepLonger spelling text) best) := by
  induction entries generalizing seen best with
  | nil => rwa [List.append_nil]
  | cons a entries ih =>
    have hrest := ih (h.keepLonger a)
    rwa [List.append_assoc] at hrest

theorem isLongestPrefix_longestPrefix? (spelling : α → List Char) (table : List α)
    (text : List Char) :
    IsLongestPrefix spelling text table (longestPrefix? spelling table text) := by
  have hnone : IsLongestPrefix spelling text [] none := ⟨by simp, by simp⟩
  exact isLongestPrefix_foldl table hnone

end

/-- The longest punctuator is one that the text starts with. -/
theorem Punctuator.longest?_prefix {text : List Char} {p : Punctuator}
    (h : longest? text = some p) : p.spelling <+: text :=
  ((isLongestPrefix_longestPrefix? spelling all text).found p h).2

/-! ## The table of words -/

namespace Word

theorem spelling_continuesWord :
    ∀ p ∈ table, p.1.toList ≠ [] ∧ ∀ c ∈ p.1.toList, continuesWord c := by
  have hall : table.all (fun p => !p.1.toList.isEmpty && p.1.toList.all continuesWord) := by
    decide +kernel
  intro p hp
  obtain ⟨hne, hchars⟩ := Bool.and_eq_true_iff.1 (List.all_eq_true.1 hall p hp)
  exact ⟨by simpa using hne, List.all_eq_true.1 hchars⟩

/-- No two entries are spelled alike. -/
theorem lookup_of_mem_table : ∀ p ∈ table, ofString? p.1 = some p.2 := by
  decide +kernel

theorem ofString?_eq_some_iff {text : String} {w : Word} :
    ofString? text = some w ↔ (text, w) ∈ table := by
  constructor
  · intro h
    obtain ⟨before, after, htable, -⟩ := List.lookup_eq_some_iff.1 h
    rw [htable]
    simp
  · exact lookup_of_mem_table (text, w)

theorem ofString?_eq_none_iff {text : String} :
    ofString? text = none ↔ ∀ w, (text, w) ∉ table := by
  rw [Option.eq_none_iff_forall_ne_some]
  exact forall_congr' fun w => not_congr ofString?_eq_some_iff

end Word

namespace Lexer

/-- The kind of a whole word. -/
def wordKind (text : List Char) : Kind :=
  match Word.ofString? (String.ofList text) with
  | some w => .word w
  | none => .identifier

theorem wordKind_eq_word_iff {text : List Char} {w : Word} :
    wordKind text = .word w ↔ (String.ofList text, w) ∈ Word.table := by
  rw [← Word.ofString?_eq_some_iff]
  unfold wordKind
  split <;> simp_all

theorem wordKind_eq_identifier_iff {text : List Char} :
    wordKind text = .identifier ↔ ∀ w, (String.ofList text, w) ∉ Word.table := by
  rw [← Word.ofString?_eq_none_iff]
  unfold wordKind
  split <;> simp_all

/-! ## A word and what follows it -/

/-- Where nothing goes on a word, no character is taken from there. -/
theorem takeWhile_of_not_continuesWord {after : List Char}
    (h : ¬ after.head?.any continuesWord) :
    after.takeWhile continuesWord = [] ∧ after.dropWhile continuesWord = after := by
  cases after with
  | nil => exact ⟨rfl, rfl⟩
  | cons d after =>
    have hd : ¬ continuesWord d := by simpa using h
    exact ⟨List.takeWhile_cons_of_neg hd, List.dropWhile_cons_of_neg hd⟩

/-- The word at the start of a text that starts with characters of a word. -/
theorem word_append {d : Char} {s : List Char} (hs : ∀ e ∈ s, continuesWord e)
    (after : List Char) :
    word (d :: s ++ after) =
      .ok ⟨d :: s ++ after.takeWhile continuesWord, after.dropWhile continuesWord⟩ := by
  show Except.ok _ = _
  simp only [span, Lexeme.after, List.takeWhile_append_of_pos hs, List.dropWhile_append_of_pos hs,
    List.append_eq, List.cons_append, List.nil_append]

/-- A text is a name if the table has no entry as long among those that the source starts with. -/
theorem wordKind_of_longer {run text : List Char} (hrun : run <+: text)
    (h : ∀ p ∈ Word.table, p.1.toList <+: text → p.1.toList.length < run.length) :
    wordKind run = .identifier := by
  refine wordKind_eq_identifier_iff.2 fun w hw => ?_
  have hlt := h _ hw
  rw [String.toList_ofList] at hlt
  exact absurd (hlt hrun) (Nat.lt_irrefl _)

/-- The longest entry, corrected by what follows it, is the entry of the whole word. -/
theorem classifiedWord_of_word {text : List Char} {l : Lexeme} (h : word text = .ok l)
    (hsplits : l.text ++ l.rest = text) :
    classifiedWord text = .ok (wordKind l.text, l) := by
  have hlongest : IsLongestPrefix (·.1.toList) text Word.table (Word.longest? text) :=
    isLongestPrefix_longestPrefix? ..
  unfold classifiedWord
  simp only [h]
  split
  case h_1 hnone =>
    have hkind : wordKind l.text = .identifier := by
      refine wordKind_of_longer ⟨l.rest, hsplits⟩ fun p hp hstarts => ?_
      obtain ⟨a, ha, -⟩ := hlongest.bound p hp hstarts
      rw [hnone] at ha
      cases ha
    rw [hkind]
    rfl
  case h_2 spelling w hfound =>
    obtain ⟨hmem, after, hafter⟩ := hlongest.found _ hfound
    obtain ⟨hne, hchars⟩ := Word.spelling_continuesWord _ hmem
    obtain ⟨d, s, hspelling⟩ := List.exists_cons_of_ne_nil hne
    replace hspelling : spelling.toList = d :: s := hspelling
    replace hafter : d :: s ++ after = text := by rw [← hafter, ← hspelling]
    -- the whole word is the entry and all that goes on it
    have hword : word text = .ok ⟨d :: s ++ after.takeWhile continuesWord,
        after.dropWhile continuesWord⟩ := by
      rw [← hafter]
      exact word_append (fun e he => hchars e (hspelling ▸ List.mem_cons_of_mem d he)) after
    obtain rfl := Except.ok.inj (h.symm.trans hword)
    rw [hspelling, ← hafter, List.drop_left, List.take_left]
    split
    case isTrue hgoes =>
      have hkind : wordKind (d :: s ++ after.takeWhile continuesWord) = .identifier := by
        refine wordKind_of_longer ⟨after.dropWhile continuesWord, hsplits⟩ fun p hp hstarts => ?_
        obtain ⟨a, ha, hle⟩ := hlongest.bound p hp hstarts
        obtain rfl := Option.some.inj (hfound.symm.trans ha)
        cases after with
        | nil => cases hgoes
        | cons e after =>
          have he : continuesWord e := by simpa using hgoes
          rw [List.takeWhile_cons_of_pos he, List.length_append, List.length_cons (a := e)]
          rw [hspelling] at hle
          omega
      rw [hkind]
      rfl
    case isFalse hends =>
      obtain ⟨htake, hdrop⟩ := takeWhile_of_not_continuesWord hends
      have hkind : wordKind (d :: s) = .word w := by
        rwa [wordKind_eq_word_iff, ← hspelling, String.ofList_toList]
      rw [htake, hdrop, List.append_nil, hkind]

theorem classifiedWord_eq (text : List Char) :
    classifiedWord text = (word text).map fun l => (wordKind l.text, l) := by
  cases text with
  | nil => exact classifiedWord_of_word rfl rfl
  | cons c rest => exact classifiedWord_of_word rfl (by simp [span, Lexeme.after])

end Lexer

end ScriptMin
