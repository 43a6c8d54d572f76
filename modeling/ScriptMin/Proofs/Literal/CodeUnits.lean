import Mathlib.Data.Bool.AllAny
import ScriptMin.Proofs.Literal.Digits
import ScriptMin.Proofs.Literal.Quoted

/-!
# The code units of a string literal

A string is a sequence of UTF-16 code units, and a literal may name any unit, also one half of a
surrogate pair. `Denotes` is the grammar of the text between the quotes with the units that each
part of it adds, and `HasLone` says that a sequence holds a surrogate without its partner.

Decoding goes by codes instead, which are code points or single surrogates. A code is the code point
of one or two units (`utf16`), so `codes?` follows the grammar (`denotes_iff`), and `assemble` finds
the pairs that the units of its codes form. Together they say that the value of a literal is
faithful to its units (`stringValue?_faithful`).
-/

namespace ScriptMin.Literal

open Source

/-! ## The grammar of a literal -/

/-- The code units of a code point. -/
def utf16 (codePoint : Nat) : List Nat :=
  if codePoint < 0x10000 then [codePoint]
  else [0xd800 + (codePoint - 0x10000) / 0x400, 0xdc00 + (codePoint - 0x10000) % 0x400]

/-- The letters that stand for a control character after a backslash. -/
def controls : List (Char × Nat) :=
  [('b', 0x08), ('t', 0x09), ('n', 0x0a), ('v', 0x0b), ('f', 0x0c), ('r', 0x0d)]

/-- Whether the text goes on with a digit of a base. -/
def GoesOn (base : Nat) (text : List Char) : Prop :=
  ∃ c ∈ text.head?, ∃ value, IsDigit base value c

/-- What stands after a backslash, the text behind the escape, and the units that it adds. Octal
escapes take as many digits as they can, up to the greatest unit of eight bits. -/
inductive Escape : List Char → List Char → List Nat → Prop where
  | control {mark : Char} {unit : Nat} {rest : List Char} (h : (mark, unit) ∈ controls) :
      Escape (mark :: rest) rest [unit]
  | self {c : Char} {rest : List Char} (hmark : c ∉ 'x' :: 'u' :: controls.map Prod.fst)
      (hline : ¬ isLineTerminator c) (hdigit : ¬ GoesOn 8 [c]) :
      Escape (c :: rest) rest (utf16 c.toNat)
  | octal {a : Char} {m : Nat} {rest : List Char} (ha : IsDigit 8 m a) (hend : ¬ GoesOn 8 rest) :
      Escape (a :: rest) rest [m]
  | twoOctal {a b : Char} {m n : Nat} {rest : List Char} (ha : IsDigit 8 m a) (hb : IsDigit 8 n b)
      (hend : m ≤ 3 → ¬ GoesOn 8 rest) : Escape (a :: b :: rest) rest [8 * m + n]
  | threeOctal {a b c : Char} {m n k : Nat} {rest : List Char} (ha : IsDigit 8 m a)
      (hb : IsDigit 8 n b) (hc : IsDigit 8 k c) (hm : m ≤ 3) :
      Escape (a :: b :: c :: rest) rest [64 * m + 8 * n + k]
  | hexadecimal {digits rest : List Char} {n : Nat} (hlength : digits.length = 2)
      (hdigits : Digits 16 digits n) : Escape ('x' :: digits ++ rest) rest [n]
  | unicode {digits rest : List Char} {n : Nat} (hlength : digits.length = 4)
      (hdigits : Digits 16 digits n) : Escape ('u' :: digits ++ rest) rest [n]
  | codePoint {digits rest : List Char} {n : Nat} (hlength : digits ≠ [])
      (hdigits : Digits 16 digits n) (hn : n ≤ 0x10ffff) :
      Escape ('u' :: '\x7b' :: digits ++ '\x7d' :: rest) rest (utf16 n)
  | newline {c : Char} {rest : List Char} (hc : isLineTerminator c)
      (hend : c = '\r' → rest.head? ≠ some '\n') : Escape (c :: rest) rest []
  | twoNewlines {rest : List Char} : Escape ('\r' :: '\n' :: rest) rest []

/-- The text between the quotes of a literal and the code units of its value. -/
inductive Denotes : List Char → List Nat → Prop where
  | nil : Denotes [] []
  | char {c : Char} {text : List Char} {units : List Nat} (hc : c ≠ '\\') (h : Denotes text units) :
      Denotes (c :: text) (utf16 c.toNat ++ units)
  | escape {text rest : List Char} {added units : List Nat} (hescape : Escape text rest added)
      (h : Denotes rest units) : Denotes ('\\' :: text) (added ++ units)

/-- A sequence of code units holds a surrogate without its partner. -/
def HasLone (units : List Nat) : Prop :=
  ∃ before unit after, units = before ++ unit :: after ∧
    (isHighSurrogate unit ∧ ¬ after.head?.any isLowSurrogate ∨
      isLowSurrogate unit ∧ ¬ before.getLast?.any isHighSurrogate)

/-! ## Escapes are read as the grammar says -/

theorem hexValue?_eq_some_iff {digits : List Char} {n : Nat} :
    hexValue? digits = some n ↔ digits ≠ [] ∧ Digits 16 digits n := by
  unfold hexValue?
  cases digits with
  | nil => simp
  | cons c digits =>
    rw [List.isEmpty_cons, if_neg Bool.false_ne_true, foldlM_digitValue? le_rfl]
    simp

theorem fixedHex?_eq_some_iff {count : Nat} (hcount : count ≠ 0) {text rest : List Char} {n : Nat} :
    fixedHex? count text = some (n, rest) ↔
      ∃ digits, digits.length = count ∧ Digits 16 digits n ∧ text = digits ++ rest := by
  constructor
  · intro h
    obtain ⟨hlength, hread⟩ := Option.ite_none_left_eq_some.1 h
    obtain ⟨m, hvalue, heq⟩ := Option.map_eq_some_iff.1 hread
    obtain ⟨rfl, rfl⟩ := Prod.mk.inj heq
    refine ⟨text.take count, ?_, (hexValue?_eq_some_iff.1 hvalue).2,
      (List.take_append_drop count text).symm⟩
    rw [List.length_take]
    omega
  · rintro ⟨digits, rfl, hdigits, rfl⟩
    have hne : digits ≠ [] := fun h => hcount (by rw [h]; rfl)
    exact fixedHex?_append (hexValue?_eq_some_iff.2 ⟨hne, hdigits⟩) rest

theorem bracedHex?_eq_some_iff {text rest : List Char} {n : Nat} :
    bracedHex? text = some (n, rest) ↔
      ∃ digits, digits ≠ [] ∧ Digits 16 digits n ∧ n ≤ 0x10ffff ∧
        text = digits ++ '\x7d' :: rest := by
  constructor
  · intro h
    unfold bracedHex? at h
    split at h
    case h_1 => cases h
    case h_2 brace after hdrop =>
      have hbrace : brace = '\x7d' := by
        have hhead := List.head?_dropWhile_not (· != '\x7d') text
        rw [hdrop] at hhead
        simpa using hhead
      split at h
      case h_2 => cases h
      case h_1 value hvalue =>
        obtain ⟨hn, heq⟩ := Option.ite_none_right_eq_some.1 h
        obtain ⟨rfl, rfl⟩ := Prod.mk.inj (Option.some.inj heq)
        obtain ⟨hne, hdigits⟩ := hexValue?_eq_some_iff.1 hvalue
        subst hbrace
        exact ⟨_, hne, hdigits, hn, by rw [← hdrop, List.takeWhile_append_dropWhile]⟩
  · rintro ⟨digits, hne, hdigits, hn, rfl⟩
    have hbrace : ∀ c ∈ digits, (c != '\x7d') = true := by
      intro c hc
      obtain ⟨value, hvalue⟩ := hdigits.forall c hc
      have hread := digitValue?_of_isDigit le_rfl hvalue
      rw [bne_iff_ne]
      rintro rfl
      cases hread
    rw [bracedHex?, List.dropWhile_append_of_pos hbrace, List.takeWhile_append_of_pos hbrace,
      List.dropWhile_cons_of_neg (by simp), List.takeWhile_cons_of_neg (by simp), List.append_nil,
      hexValue?_eq_some_iff.2 ⟨hne, hdigits⟩]
    simp only [hn, if_true]

theorem not_goesOn {base : Nat} (hbase : base ≤ 16) {c : Char} {text : List Char} :
    ¬ GoesOn base (c :: text) ↔ digitValue? base c = none := by
  rw [← Option.not_isSome_iff_eq_none, Option.isSome_iff_exists]
  simp [GoesOn, digitValue?_eq_some_iff hbase]

theorem octalTail_of_not_goesOn {text : List Char} (h : ¬ GoesOn 8 text) (m limit : Nat) :
    octalTail m limit text = (m, text) := by
  cases limit with
  | zero => rfl
  | succ limit =>
    cases text with
    | nil => rfl
    | cons c text => simp only [octalTail, (not_goesOn (by decide)).1 h]

theorem octalTail_cons {c : Char} {n : Nat} (h : IsDigit 8 n c) (m limit : Nat)
    (text : List Char) :
    octalTail m (limit + 1) (c :: text) = octalTail (8 * m + n) limit text := by
  simp only [octalTail, digitValue?_of_isDigit (by decide) h]

/-- An escape takes the octal digits after its first while its value is a unit of eight bits. -/
theorem escape_of_octalTail {a : Char} {m : Nat} (ha : IsDigit 8 m a) {text rest : List Char}
    {n : Nat} (h : octalTail m (if m ≤ 3 then 2 else 1) text = (n, rest)) :
    Escape (a :: text) rest [n] := by
  obtain ⟨limit, hlimit⟩ : ∃ limit, (if m ≤ 3 then 2 else 1) = limit + 1 := by
    by_cases hm : m ≤ 3 <;> simp [hm]
  rw [hlimit] at h
  cases text with
  | nil =>
    obtain ⟨rfl, rfl⟩ := Prod.mk.inj h
    exact .octal ha (by simp [GoesOn])
  | cons b text =>
    cases hb : digitValue? 8 b with
    | none =>
      simp only [octalTail, hb] at h
      obtain ⟨rfl, rfl⟩ := Prod.mk.inj h
      exact .octal ha ((not_goesOn (by decide)).2 hb)
    | some k =>
      have hdigit := isDigit_of_digitValue? (by decide) hb
      simp only [octalTail, hb] at h
      by_cases hm : m ≤ 3
      · -- a third digit may follow
        rw [if_pos hm] at hlimit
        obtain rfl : limit = 1 := by omega
        cases text with
        | nil =>
          obtain ⟨rfl, rfl⟩ := Prod.mk.inj h
          exact .twoOctal ha hdigit fun _ => by simp [GoesOn]
        | cons c text =>
          cases hc : digitValue? 8 c with
          | none =>
            simp only [octalTail, hc] at h
            obtain ⟨rfl, rfl⟩ := Prod.mk.inj h
            exact .twoOctal ha hdigit fun _ => (not_goesOn (by decide)).2 hc
          | some l =>
            simp only [octalTail, hc] at h
            obtain ⟨rfl, rfl⟩ := Prod.mk.inj h
            have hvalue : 8 * (8 * m + k) + l = 64 * m + 8 * k + l := by omega
            rw [hvalue]
            exact .threeOctal ha hdigit (isDigit_of_digitValue? (by decide) hc) hm
      · rw [if_neg hm] at hlimit
        obtain rfl : limit = 0 := by omega
        obtain ⟨rfl, rfl⟩ := Prod.mk.inj h
        exact .twoOctal ha hdigit fun hle => absurd hle hm

theorem octalTail_lt (m limit : Nat) (text : List Char) :
    (octalTail m limit text).1 < 8 ^ limit * (m + 1) := by
  fun_induction octalTail m limit text with
  | case1 => omega
  | case2 m limit => exact Nat.lt_of_lt_of_le m.lt_succ_self (Nat.le_mul_of_pos_left _ (by simp))
  | case3 m limit c rest d hd ih =>
    have hd8 := (isDigit_of_digitValue? (by decide) hd).1
    calc _ < 8 ^ limit * (8 * m + d + 1) := ih
      _ ≤ 8 ^ limit * (8 * (m + 1)) := Nat.mul_le_mul_left _ (by omega)
      _ = 8 ^ (limit + 1) * (m + 1) := by ring
  | case4 m limit => exact Nat.lt_of_lt_of_le m.lt_succ_self (Nat.le_mul_of_pos_left _ (by simp))

theorem toNat_le (c : Char) : c.toNat ≤ 0x10ffff := by
  have hc : c.toNat < 0xd800 ∨ 0xdfff < c.toNat ∧ c.toNat < 0x110000 := c.valid
  omega

/-- The code units of what an escape stands for. -/
def unitsOf : Option Nat → List Nat
  | none => []
  | some code => utf16 code

theorem utf16_of_lt {n : Nat} (h : n < 0x10000) : utf16 n = [n] := if_pos h

/-- What is read of an escape follows the grammar, and it is a code point. -/
theorem escape_of_escape? {text rest : List Char} {code : Option Nat}
    (h : escape? text = some (code, rest)) :
    Escape text rest (unitsOf code) ∧ ∀ n ∈ code, n ≤ 0x10ffff := by
  have hcontrol : ∀ {mark : Char} {unit : Nat} {rest : List Char}, (mark, unit) ∈ controls →
      unit ≤ 0x10ffff → Escape (mark :: rest) rest [unit] ∧ ∀ n ∈ some unit, n ≤ 0x10ffff :=
    fun hmem hle => ⟨.control hmem, by rintro _ ⟨⟩; exact hle⟩
  unfold escape? at h
  split at h
  case h_1 => cases h
  case h_2 => cases h; exact hcontrol (by decide) (by decide)
  case h_3 => cases h; exact hcontrol (by decide) (by decide)
  case h_4 => cases h; exact hcontrol (by decide) (by decide)
  case h_5 => cases h; exact hcontrol (by decide) (by decide)
  case h_6 => cases h; exact hcontrol (by decide) (by decide)
  case h_7 => cases h; exact hcontrol (by decide) (by decide)
  case h_8 text =>
    obtain ⟨⟨n, rest'⟩, hread, heq⟩ := Option.map_eq_some_iff.1 h
    cases heq
    obtain ⟨digits, hlength, hdigits, rfl⟩ := (fixedHex?_eq_some_iff (by decide)).1 hread
    have hn := hdigits.lt
    rw [hlength] at hn
    rw [unitsOf, utf16_of_lt (by omega)]
    exact ⟨.hexadecimal hlength hdigits, by rintro _ ⟨⟩; omega⟩
  case h_9 text =>
    obtain ⟨⟨n, rest'⟩, hread, heq⟩ := Option.map_eq_some_iff.1 h
    cases heq
    obtain ⟨digits, hne, hdigits, hn, rfl⟩ := bracedHex?_eq_some_iff.1 hread
    exact ⟨.codePoint hne hdigits hn, by rintro _ ⟨⟩; exact hn⟩
  case h_10 text _ =>
    obtain ⟨⟨n, rest'⟩, hread, heq⟩ := Option.map_eq_some_iff.1 h
    cases heq
    obtain ⟨digits, hlength, hdigits, rfl⟩ := (fixedHex?_eq_some_iff (by decide)).1 hread
    have hn := hdigits.lt
    rw [hlength] at hn
    rw [unitsOf, utf16_of_lt (by omega)]
    exact ⟨.unicode hlength hdigits, by rintro _ ⟨⟩; omega⟩
  case h_11 => cases h; exact ⟨.twoNewlines, nofun⟩
  case h_12 c text hb hf hn hr ht hv hx hu hu' hcrlf =>
    split at h
    case isTrue hline =>
      cases h
      refine ⟨.newline hline ?_, nofun⟩
      rintro rfl hhead
      obtain ⟨after, rfl⟩ := List.head?_eq_some_iff.1 hhead
      exact hcrlf _ rfl rfl
    case isFalse hline =>
      split at h
      case h_1 d hd =>
        have hdigit := isDigit_of_digitValue? (by decide) hd
        obtain ⟨rfl, rfl⟩ := Prod.mk.inj (Option.some.inj h)
        have hbound := octalTail_lt d (if d ≤ 3 then 2 else 1) text
        have hd8 : d < 8 := hdigit.1
        have hunit : (octalTail d (if d ≤ 3 then 2 else 1) text).1 < 0x10000 := by
          have hlimit : 8 ^ (if d ≤ 3 then 2 else 1) ≤ 64 := by split <;> decide
          nlinarith
        rw [unitsOf, utf16_of_lt hunit]
        exact ⟨escape_of_octalTail hdigit rfl, by rintro _ ⟨⟩; omega⟩
      case h_2 hd =>
        cases h
        refine ⟨.self ?_ hline ((not_goesOn (by decide)).2 hd), ?_⟩
        · simp only [controls, List.map_cons, List.map_nil, List.mem_cons, List.not_mem_nil,
            or_false, not_or]
          exact ⟨hx, hu', hb, ht, hn, hv, hf, hr⟩
        · rintro _ ⟨⟩
          exact toNat_le c

/-- A character with no escape of its own: the end of a line, an octal digit or itself. -/
theorem escape?_cons {c : Char} {rest : List Char}
    (hmark : c ∉ 'x' :: 'u' :: controls.map Prod.fst)
    (hend : c = '\r' → rest.head? ≠ some '\n') :
    escape? (c :: rest) =
      if isLineTerminator c then some (none, rest)
      else
        match digitValue? 8 c with
        | some d =>
          let (value, rest) := octalTail d (if d ≤ 3 then 2 else 1) rest
          some (some value, rest)
        | none => some (some c.toNat, rest) := by
  simp only [controls, List.map_cons, List.map_nil, List.mem_cons, List.not_mem_nil, or_false,
    not_or] at hmark
  obtain ⟨hx, hu, hb, ht, hn, hv, hf, hr⟩ := hmark
  -- the last equation of the reader asks that none of the others is meant
  rw [escape?] <;> first
    | rfl
    | assumption
    | exact fun _ hc => absurd hc hu
    | exact fun _ hc hrest => hend hc (hrest ▸ rfl)

/-- An octal digit is no letter with an escape of its own. -/
theorem not_mark_of_isDigit {c : Char} {m : Nat} (h : IsDigit 8 m c) :
    c ∉ 'x' :: 'u' :: controls.map Prod.fst := by
  have hnone : ∀ d ∈ 'x' :: 'u' :: controls.map Prod.fst, digitValue? 8 d = none :=
    List.all_iff_forall_prop.1 rfl
  intro hmem
  have hread := digitValue?_of_isDigit (by decide) h
  rw [hnone c hmem] at hread
  cases hread

/-- What an escape that starts with an octal digit stands for. -/
theorem escape?_of_isDigit {c : Char} {m : Nat} (h : IsDigit 8 m c) (rest : List Char) :
    escape? (c :: rest) = some (some (octalTail m (if m ≤ 3 then 2 else 1) rest).1,
      (octalTail m (if m ≤ 3 then 2 else 1) rest).2) := by
  have hread := digitValue?_of_isDigit (by decide) h
  have hdecimal := decimal_of_digitValue? hread
  have hline : isLineTerminator c = false := by
    simp only [isLineTerminator, Bool.or_eq_false_iff, beq_eq_false_iff_ne]
    refine ⟨⟨⟨?_, ?_⟩, ?_⟩, ?_⟩ <;> rintro rfl <;> cases hdecimal
  rw [escape?_cons (not_mark_of_isDigit h) (by rintro rfl; cases hline), hline, hread]
  rfl

/-- An escape of the grammar is read as what it stands for. -/
theorem Escape.escape? {text rest : List Char} {units : List Nat} (h : Escape text rest units) :
    ∃ code, escape? text = some (code, rest) ∧ units = unitsOf code := by
  cases h with
  | @control mark unit rest h =>
    simp only [controls, List.mem_cons, Prod.mk.injEq, List.not_mem_nil, or_false] at h
    rcases h with ⟨rfl, rfl⟩ | ⟨rfl, rfl⟩ | ⟨rfl, rfl⟩ | ⟨rfl, rfl⟩ | ⟨rfl, rfl⟩ | ⟨rfl, rfl⟩ <;>
      exact ⟨_, rfl, rfl⟩
  | @self c rest hmark hline hdigit =>
    have hcr : c = '\r' → rest.head? ≠ some '\n' := by rintro rfl; exact absurd rfl hline
    rw [escape?_cons hmark hcr, if_neg hline, (not_goesOn (by decide)).1 hdigit]
    exact ⟨_, rfl, rfl⟩
  | @octal a m rest ha hend =>
    have hm := ha.1
    rw [escape?_of_isDigit ha, octalTail_of_not_goesOn hend]
    exact ⟨_, rfl, by rw [unitsOf, utf16_of_lt (by omega)]⟩
  | @twoOctal a b m n rest ha hb hend =>
    have hm := ha.1
    have hn := hb.1
    have htail : octalTail m (if m ≤ 3 then 2 else 1) (b :: rest) = (8 * m + n, rest) := by
      split
      case isTrue hle => rw [octalTail_cons hb, octalTail_of_not_goesOn (hend hle)]
      case isFalse => rw [octalTail_cons hb]; rfl
    rw [escape?_of_isDigit ha, htail]
    exact ⟨_, rfl, by rw [unitsOf, utf16_of_lt (by omega)]⟩
  | @threeOctal a b c m n k rest ha hb hc hle =>
    have hn := hb.1
    have hk := hc.1
    have htail : octalTail m (if m ≤ 3 then 2 else 1) (b :: c :: rest) =
        (64 * m + 8 * n + k, rest) := by
      rw [if_pos hle, octalTail_cons hb, octalTail_cons hc]
      exact Prod.ext (by simp only [octalTail]; omega) rfl
    rw [escape?_of_isDigit ha, htail]
    exact ⟨_, rfl, by rw [unitsOf, utf16_of_lt (by omega)]⟩
  | @hexadecimal digits rest n hlength hdigits =>
    have hread : fixedHex? 2 (digits ++ rest) = some (n, rest) :=
      (fixedHex?_eq_some_iff (by decide)).2 ⟨digits, hlength, hdigits, rfl⟩
    have hn := hdigits.lt
    rw [hlength] at hn
    rw [List.cons_append, Literal.escape?, hread]
    exact ⟨_, rfl, by rw [unitsOf, utf16_of_lt (by omega)]⟩
  | @unicode digits rest n hlength hdigits =>
    have hread : fixedHex? 4 (digits ++ rest) = some (n, rest) :=
      (fixedHex?_eq_some_iff (by decide)).2 ⟨digits, hlength, hdigits, rfl⟩
    have hn := hdigits.lt
    rw [hlength] at hn
    rw [List.cons_append, Literal.escape?, hread]
    · exact ⟨_, rfl, by rw [unitsOf, utf16_of_lt (by omega)]⟩
    · -- a brace is no digit
      intro after heq
      obtain ⟨d, tail, rfl⟩ := List.exists_cons_of_length_eq_add_one hlength
      obtain ⟨value, hvalue⟩ := hdigits.forall d List.mem_cons_self
      obtain ⟨rfl, -⟩ := List.cons.inj heq
      cases digitValue?_of_isDigit le_rfl hvalue
  | @codePoint digits rest n hne hdigits hn =>
    have hread : bracedHex? (digits ++ '\x7d' :: rest) = some (n, rest) :=
      bracedHex?_eq_some_iff.2 ⟨digits, hne, hdigits, hn, rfl⟩
    rw [List.cons_append, List.cons_append, Literal.escape?, hread]
    exact ⟨_, rfl, rfl⟩
  | @newline c rest hc hend =>
    have hmark : c ∉ 'x' :: 'u' :: controls.map Prod.fst := by
      have hnone : ∀ d ∈ 'x' :: 'u' :: controls.map Prod.fst, isLineTerminator d = false :=
        List.all_iff_forall_prop.1 rfl
      intro hmem
      rw [hnone c hmem] at hc
      cases hc
    rw [escape?_cons hmark hend, if_pos hc]
    exact ⟨_, rfl, rfl⟩
  | twoNewlines => exact ⟨none, rfl, rfl⟩

/-! ## A literal is read as the grammar says -/

theorem Escape.length_le {text rest : List Char} {units : List Nat} (h : Escape text rest units) :
    rest.length ≤ text.length := by
  cases h <;> simp only [List.length_cons, List.length_append] <;> omega

/-- What is read of a literal follows the grammar, and all of it is code points. -/
theorem denotes_of_codesFrom? {bound : Nat} {text : List Char} {codes : List Nat}
    (h : codesFrom? bound text = some codes) :
    Denotes text (codes.flatMap utf16) ∧ ∀ code ∈ codes, code ≤ 0x10ffff := by
  fun_induction codesFrom? bound text generalizing codes with
  | case1 => cases h; exact ⟨.nil, nofun⟩
  | case2 => cases h
  | case3 => cases h
  | case4 bound rest rest' hescape ih =>
    obtain ⟨hdenotes, hcodes⟩ := ih h
    exact ⟨.escape (escape_of_escape? hescape).1 hdenotes, hcodes⟩
  | case5 bound rest code rest' hescape ih =>
    obtain ⟨codes, hread, rfl⟩ := Option.map_eq_some_iff.1 h
    obtain ⟨hdenotes, hcodes⟩ := ih hread
    obtain ⟨hgrammar, hcode⟩ := escape_of_escape? hescape
    exact ⟨.escape hgrammar hdenotes, List.forall_mem_cons.2 ⟨hcode _ rfl, hcodes⟩⟩
  | case6 bound c rest hc ih =>
    obtain ⟨codes, hread, rfl⟩ := Option.map_eq_some_iff.1 h
    obtain ⟨hdenotes, hcodes⟩ := ih hread
    exact ⟨.char hc hdenotes, List.forall_mem_cons.2 ⟨toNat_le c, hcodes⟩⟩

/-- A literal of the grammar is read, and its codes have the units of the literal. -/
theorem Denotes.codesFrom? {text : List Char} {units : List Nat} (h : Denotes text units) :
    ∀ bound, text.length ≤ bound →
      ∃ codes, codesFrom? bound text = some codes ∧ units = codes.flatMap utf16 := by
  induction h with
  | nil => intro bound _; exact ⟨[], by cases bound <;> rfl, rfl⟩
  | @char c text units hc _ ih =>
    rintro (_ | bound) hbound
    · cases hbound
    · obtain ⟨codes, hread, rfl⟩ := ih bound (Nat.le_of_succ_le_succ hbound)
      refine ⟨c.toNat :: codes, ?_, rfl⟩
      rw [Literal.codesFrom?, hread]
      · rfl
      · exact hc
  | @escape text rest added units hescape _ ih =>
    rintro (_ | bound) hbound
    · cases hbound
    · have hlength := hescape.length_le
      obtain ⟨codes, hread, rfl⟩ := ih bound (by simp only [List.length_cons] at hbound; omega)
      obtain ⟨code, hcode, rfl⟩ := hescape.escape?
      cases code with
      | none =>
        refine ⟨codes, ?_, rfl⟩
        rw [Literal.codesFrom?, hcode]
        exact hread
      | some code =>
        refine ⟨code :: codes, ?_, rfl⟩
        rw [Literal.codesFrom?, hcode]
        exact congrArg (Option.map _) hread

/-- The text of a literal denotes the units of its codes and no others. -/
theorem denotes_iff {text : List Char} {units : List Nat} :
    Denotes text units ↔ ∃ codes, codes? text = some codes ∧ units = codes.flatMap utf16 := by
  constructor
  · exact fun h => h.codesFrom? text.length le_rfl
  · rintro ⟨codes, hread, rfl⟩
    exact (denotes_of_codesFrom? hread).1

/-! ## Surrogates and their partners -/

theorem isHigh_iff {unit : Nat} : isHighSurrogate unit ↔ 0xd800 ≤ unit ∧ unit ≤ 0xdbff :=
  decide_eq_true_iff

theorem isLow_iff {unit : Nat} : isLowSurrogate unit ↔ 0xdc00 ≤ unit ∧ unit ≤ 0xdfff :=
  decide_eq_true_iff

theorem not_high_of_low {unit : Nat} (h : isLowSurrogate unit) : isHighSurrogate unit = false := by
  rw [isLow_iff] at h
  rw [← Bool.not_eq_true, isHigh_iff]
  omega

theorem not_hasLone_nil : ¬ HasLone [] := by
  rintro ⟨before, unit, after, heq, -⟩
  simp at heq

/-- What stands last behind a unit that is no high surrogate. -/
theorem any_getLast?_cons {unit : Nat} (h : isHighSurrogate unit = false) (before : List Nat) :
    (unit :: before).getLast?.any isHighSurrogate = before.getLast?.any isHighSurrogate := by
  rw [List.getLast?_cons]
  cases before.getLast? <;> simp [h]

/-- A unit in front that is no high surrogate is no partner of what follows. -/
theorem hasLone_cons_of_not_high {unit : Nat} (h : isHighSurrogate unit = false)
    (units : List Nat) : HasLone (unit :: units) ↔ isLowSurrogate unit ∨ HasLone units := by
  constructor
  · rintro ⟨before, lone, after, heq, hlone⟩
    cases before with
    | nil =>
      obtain ⟨rfl, rfl⟩ := List.cons.inj heq
      rcases hlone with ⟨hhigh, -⟩ | ⟨hlow, -⟩
      · rw [h] at hhigh; cases hhigh
      · exact .inl hlow
    | cons first before =>
      obtain ⟨rfl, rfl⟩ := List.cons.inj heq
      rw [any_getLast?_cons h] at hlone
      exact .inr ⟨before, lone, after, rfl, hlone⟩
  · rintro (hlow | ⟨before, lone, after, rfl, hlone⟩)
    · exact ⟨[], unit, units, rfl, .inr ⟨hlow, by simp⟩⟩
    · refine ⟨unit :: before, lone, after, rfl, ?_⟩
      rwa [any_getLast?_cons h]

/-- A pair in front of a sequence leaves its lone surrogates as they are. -/
theorem hasLone_pair {high low : Nat} (hhigh : isHighSurrogate high) (hlow : isLowSurrogate low)
    (units : List Nat) : HasLone (high :: low :: units) ↔ HasLone units := by
  have hnot := not_high_of_low hlow
  constructor
  · rintro ⟨before, lone, after, heq, hlone⟩
    match before with
    | [] =>
      obtain ⟨rfl, rfl⟩ := List.cons.inj heq
      rcases hlone with ⟨-, hpartner⟩ | ⟨hlow', -⟩
      · exact absurd hlow hpartner
      · rw [not_high_of_low hlow'] at hhigh; cases hhigh
    | [first] =>
      obtain ⟨rfl, htail⟩ := List.cons.inj heq
      obtain ⟨rfl, rfl⟩ := List.cons.inj htail
      rcases hlone with ⟨hhigh', -⟩ | ⟨-, hpartner⟩
      · rw [hnot] at hhigh'; cases hhigh'
      · exact absurd hhigh hpartner
    | first :: second :: before =>
      obtain ⟨rfl, htail⟩ := List.cons.inj heq
      obtain ⟨rfl, rfl⟩ := List.cons.inj htail
      refine ⟨before, lone, after, rfl, ?_⟩
      rwa [List.getLast?_cons_cons, any_getLast?_cons hnot] at hlone
  · rintro ⟨before, lone, after, rfl, hlone⟩
    refine ⟨high :: low :: before, lone, after, rfl, ?_⟩
    rwa [List.getLast?_cons_cons, any_getLast?_cons hnot]

/-- A high surrogate in front of anything but a low one is alone. -/
theorem hasLone_of_high {high : Nat} (hhigh : isHighSurrogate high) {units : List Nat}
    (hnext : ¬ units.head?.any isLowSurrogate) : HasLone (high :: units) :=
  ⟨[], high, units, rfl, .inl ⟨hhigh, hnext⟩⟩

/-! ## Codes are put together as their units are paired -/

theorem lt_of_isSurrogate {code : Nat} (h : isSurrogate code) : code < 0x10000 := by
  rw [isSurrogate, Bool.or_eq_true, isHigh_iff, isLow_iff] at h
  omega

/-- The units of a code that is no surrogate have their partners among themselves. -/
theorem hasLone_utf16_append {code : Nat} (hcode : code ≤ 0x10ffff)
    (h : isSurrogate code = false) (units : List Nat) :
    HasLone (utf16 code ++ units) ↔ HasLone units := by
  obtain ⟨hhigh, hlow⟩ := Bool.or_eq_false_iff.1 h
  unfold utf16
  split
  case isTrue =>
    rw [List.singleton_append, hasLone_cons_of_not_high hhigh, hlow]
    simp
  case isFalse =>
    exact hasLone_pair (isHigh_iff.2 (by omega)) (isLow_iff.2 (by omega)) units

/-- The first unit of a code is a low surrogate only if the code is one. -/
theorem any_head?_utf16 {code : Nat} (hcode : code ≤ 0x10ffff) (units : List Nat) :
    (utf16 code ++ units).head?.any isLowSurrogate = isLowSurrogate code := by
  unfold utf16
  split
  case isTrue => rfl
  case isFalse hlarge =>
    rw [List.cons_append, List.head?_cons, Option.any_some, Bool.eq_iff_iff, isLow_iff, isLow_iff]
    omega

theorem toNat_ofNat {code : Nat} (hcode : code ≤ 0x10ffff) (h : isSurrogate code = false) :
    (Char.ofNat code).toNat = code := by
  have hvalid : code.isValidChar := by
    rw [← Bool.not_eq_true, isSurrogate, Bool.or_eq_true, isHigh_iff, isLow_iff] at h
    rw [Nat.isValidChar]
    omega
  rw [Char.ofNat, dif_pos hvalid]
  rfl

/-- The code point of a pair lies behind the first plane, and the units give it back. -/
theorem joinSurrogates_spec {high low : Nat} (hhigh : isHighSurrogate high)
    (hlow : isLowSurrogate low) :
    0x10000 ≤ joinSurrogates high low ∧ joinSurrogates high low ≤ 0x10ffff ∧
      0xd800 + (joinSurrogates high low - 0x10000) / 0x400 = high ∧
      0xdc00 + (joinSurrogates high low - 0x10000) % 0x400 = low := by
  rw [isHigh_iff] at hhigh
  rw [isLow_iff] at hlow
  unfold joinSurrogates
  omega

theorem utf16_joinSurrogates {high low : Nat} (hhigh : isHighSurrogate high)
    (hlow : isLowSurrogate low) : utf16 (joinSurrogates high low) = [high, low] := by
  obtain ⟨hlarge, -, hfirst, hsecond⟩ := joinSurrogates_spec hhigh hlow
  rw [utf16, if_neg (Nat.not_lt.2 hlarge), hfirst, hsecond]

theorem toNat_joinSurrogates {high low : Nat} (hhigh : isHighSurrogate high)
    (hlow : isLowSurrogate low) :
    (Char.ofNat (joinSurrogates high low)).toNat = joinSurrogates high low := by
  obtain ⟨hlarge, hle, -⟩ := joinSurrogates_spec hhigh hlow
  refine toNat_ofNat hle (Bool.eq_false_iff.2 fun hsurrogate => ?_)
  exact absurd (lt_of_isSurrogate hsurrogate) (Nat.not_lt.2 hlarge)

/-- Codes are characters exactly if their units hold no lone surrogate, and the characters have
these units. -/
theorem assemble_spec {codes : List Nat} (hcodes : ∀ code ∈ codes, code ≤ 0x10ffff) :
    ((assemble codes).2 ↔ ¬ HasLone (codes.flatMap utf16)) ∧
      ((assemble codes).2 →
        (assemble codes).1.flatMap (utf16 ·.toNat) = codes.flatMap utf16) := by
  fun_induction assemble codes with
  | case1 => exact ⟨by simp [not_hasLone_nil], fun _ => rfl⟩
  | case2 code hsurrogate =>
    have hlone : HasLone [code] := by
      rcases (Bool.or_eq_true _ _).mp hsurrogate with hhigh | hlow
      · exact hasLone_of_high hhigh (by simp)
      · exact (hasLone_cons_of_not_high (not_high_of_low hlow) []).2 (.inl hlow)
    rw [List.flatMap_singleton, utf16_of_lt (lt_of_isSurrogate hsurrogate)]
    exact ⟨iff_of_false Bool.false_ne_true (not_not_intro hlone), nofun⟩
  | case3 code hcode =>
    have hnot := Bool.eq_false_iff.2 hcode
    have hle := hcodes code List.mem_cons_self
    have hlone := hasLone_utf16_append hle hnot []
    rw [List.append_nil] at hlone
    rw [List.flatMap_singleton, List.flatMap_singleton, toNat_ofNat hle hnot, hlone]
    exact ⟨by simp [not_hasLone_nil], fun _ => rfl⟩
  | case4 code next rest hpair text complete hrest ih =>
    obtain ⟨hhigh, hlow⟩ := (Bool.and_eq_true _ _).mp hpair
    obtain ⟨-, hcodes⟩ := List.forall_mem_cons.1 hcodes
    obtain ⟨hlone, hunits⟩ := ih (List.forall_mem_cons.1 hcodes).2
    have hcode := utf16_of_lt (lt_of_isSurrogate ((Bool.or_eq_true _ _).mpr (.inl hhigh)))
    have hnext := utf16_of_lt (lt_of_isSurrogate ((Bool.or_eq_true _ _).mpr (.inr hlow)))
    rw [hrest] at hlone hunits
    simp only [List.flatMap_cons, hcode, hnext, hasLone_pair hhigh hlow,
      toNat_joinSurrogates hhigh hlow, utf16_joinSurrogates hhigh hlow, List.cons_append,
      List.nil_append]
    exact ⟨hlone, fun h => by rw [hunits h]⟩
  | case5 code next rest hpair text complete hrest hsurrogate ih =>
    have hnext := (List.forall_mem_cons.1 hcodes).2 next List.mem_cons_self
    have hlone : HasLone ((code :: next :: rest).flatMap utf16) := by
      rw [List.flatMap_cons, utf16_of_lt (lt_of_isSurrogate hsurrogate), List.singleton_append]
      rcases (Bool.or_eq_true _ _).mp hsurrogate with hhigh | hlow
      · refine hasLone_of_high hhigh ?_
        rw [List.flatMap_cons, any_head?_utf16 hnext]
        exact fun hlow => hpair ((Bool.and_eq_true _ _).mpr ⟨hhigh, hlow⟩)
      · exact (hasLone_cons_of_not_high (not_high_of_low hlow) _).2 (.inl hlow)
    exact ⟨iff_of_false Bool.false_ne_true (not_not_intro hlone), nofun⟩
  | case6 code next rest hpair text complete hrest hcode ih =>
    have hnot := Bool.eq_false_iff.2 hcode
    obtain ⟨hle, hcodes⟩ := List.forall_mem_cons.1 hcodes
    obtain ⟨hlone, hunits⟩ := ih hcodes
    rw [hrest] at hlone hunits
    rw [List.flatMap_cons (x := code), hasLone_utf16_append hle hnot]
    exact ⟨hlone, fun h => by rw [List.flatMap_cons, toNat_ofNat hle hnot, hunits h]⟩

/-- The value of a literal is faithful to the code units that its text denotes: it is a string
exactly if they hold no lone surrogate, and the string then has these units. -/
theorem stringValue?_faithful {raw value : List Char} {representable : Bool}
    (h : stringValue? raw = some (value, representable)) :
    ∃ units, (∀ other, Denotes (unquoted raw) other ↔ other = units) ∧
      (representable ↔ ¬ HasLone units) ∧
      (representable → value.flatMap (utf16 ·.toNat) = units) := by
  obtain ⟨codes, hcodes, hassemble⟩ := Option.map_eq_some_iff.1 h
  obtain ⟨hlone, hunits⟩ := assemble_spec (denotes_of_codesFrom? hcodes).2
  rw [hassemble] at hlone hunits
  refine ⟨codes.flatMap utf16, fun other => ?_, hlone, hunits⟩
  rw [denotes_iff, hcodes]
  simp

/-- A pair is found across a line continuation, whichever way its halves are written, also before
an octal escape and a digit that is not part of it. -/
theorem stringValue?_faithful_pair :
    let raw := ['\x22', '\\', 'u', 'd', '8', '3', 'd', '\\', '\r', '\n', '\\', 'u', '\x7b', 'd', 'e',
      '0', '0', '\x7d', '\\', '1', '0', '1', '7', '\x22']
    stringValue? raw = some ([Char.ofNat 0x1f600, 'A', '7'], true) ∧
      ∃ units, (∀ other, Denotes (unquoted raw) other ↔ other = units) ∧
        (true ↔ ¬ HasLone units) ∧
        (true → [Char.ofNat 0x1f600, 'A', '7'].flatMap (utf16 ·.toNat) = units) :=
  ⟨by decide, stringValue?_faithful (by decide)⟩

end ScriptMin.Literal
