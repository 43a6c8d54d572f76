import Mathlib.Data.List.Forall2
import Mathlib.Data.Nat.Digits.Defs
import Mathlib.Tactic.Ring
import ScriptMin.Source.Character

/-!
# Digits and the numbers they stand for

`IsDigit` says that a character is the digit of a value in a base, and `Digits` gives the number
that a text of digits stands for, by place value. `digitValue?` finds the value of a digit
(`digitValue?_eq_some_iff`), and a fold over a text adds up its number (`foldlM_digitValue?`).
-/

namespace ScriptMin.Literal

open Source

/-- A digit of a base and its value. A letter counts in either case. -/
def IsDigit (base value : Nat) (c : Char) : Prop :=
  value < base ∧ (c = Nat.digitChar value ∨ c = (Nat.digitChar value).toUpper)

/-- Digits of a base and the number that they stand for. -/
def Digits (base : Nat) (digits : List Char) (n : Nat) : Prop :=
  ∃ values, List.Forall₂ (IsDigit base) values digits ∧ n = Nat.ofDigits base values.reverse

theorem digitValue?_of_isDigit {base value : Nat} (hbase : base ≤ 16) {c : Char}
    (h : IsDigit base value c) : digitValue? base c = some value := by
  have hlower : ∀ v < 16, digitValue? 16 (Nat.digitChar v) = some v := by decide
  have hupper : ∀ v < 16, digitValue? 16 (Nat.digitChar v).toUpper = some v := by decide
  obtain ⟨hvalue, hc⟩ := h
  have hread : digitValue? 16 c = some value := by
    rcases hc with rfl | rfl
    · exact hlower value (by omega)
    · exact hupper value (by omega)
  simp only [digitValue?] at hread ⊢
  grind

/-- A character with a value lies in one of three ranges. -/
theorem range_of_digitValue? {base value : Nat} {c : Char} (h : digitValue? base c = some value) :
    value < base ∧ (48 ≤ c.toNat ∧ c.toNat ≤ 57 ∧ value = c.toNat - 48 ∨
      97 ≤ c.toNat ∧ c.toNat ≤ 102 ∧ value = c.toNat - 87 ∨
      65 ≤ c.toNat ∧ c.toNat ≤ 70 ∧ value = c.toNat - 55 ∨ value = 16) := by
  simp only [digitValue?, Char.isDigit, Bool.and_eq_true, decide_eq_true_eq, Char.le_def,
    UInt32.le_iff_toNat_le, ge_iff_le] at h
  obtain ⟨hvalue, heq⟩ := Option.ite_none_right_eq_some.1 h
  obtain rfl := Option.some.inj heq
  refine ⟨hvalue, ?_⟩
  split
  case isTrue hc => exact .inl ⟨hc.1, hc.2, rfl⟩
  split
  case isTrue hc =>
    refine .inr (.inl ⟨hc.1, hc.2, ?_⟩)
    change c.val.toNat - 97 + 10 = c.val.toNat - 87
    have : 97 ≤ c.val.toNat := hc.1
    omega
  split
  case isTrue hc =>
    refine .inr (.inr (.inl ⟨hc.1, hc.2, ?_⟩))
    change c.val.toNat - 65 + 10 = c.val.toNat - 55
    have : 65 ≤ c.val.toNat := hc.1
    omega
  case isFalse => exact .inr (.inr (.inr rfl))

theorem isDigit_of_digitValue? {base value : Nat} (hbase : base ≤ 16) {c : Char}
    (h : digitValue? base c = some value) : IsDigit base value c := by
  have hletter : ∀ v < 16, 10 ≤ v → (Nat.digitChar v).toNat = v + 87 := by decide
  have hcapital : ∀ v < 16, 10 ≤ v → (Nat.digitChar v).toUpper.toNat = v + 55 := by decide
  obtain ⟨hvalue, hrange⟩ := range_of_digitValue? h
  refine ⟨hvalue, ?_⟩
  rcases hrange with hc | hc | hc | hc
  · left
    apply Char.toNat_inj.1
    rw [Nat.toNat_digitChar_of_lt_ten (by omega)]
    omega
  · left
    apply Char.toNat_inj.1
    rw [hletter value (by omega) (by omega)]
    omega
  · right
    apply Char.toNat_inj.1
    rw [hcapital value (by omega) (by omega)]
    omega
  · omega

theorem digitValue?_eq_some_iff {base value : Nat} (hbase : base ≤ 16) {c : Char} :
    digitValue? base c = some value ↔ IsDigit base value c :=
  ⟨isDigit_of_digitValue? hbase, digitValue?_of_isDigit hbase⟩

theorem digits_cons_iff {base n : Nat} {c : Char} {digits : List Char} :
    Digits base (c :: digits) n ↔
      ∃ value m, IsDigit base value c ∧ Digits base digits m ∧
        n = base ^ digits.length * value + m := by
  constructor
  · rintro ⟨_, hvalues, rfl⟩
    obtain ⟨value, values, hc, hdigits, rfl⟩ := List.forall₂_cons_right_iff.1 hvalues
    refine ⟨value, _, hc, ⟨values, hdigits, rfl⟩, ?_⟩
    rw [List.reverse_cons, Nat.ofDigits_append, Nat.ofDigits_singleton, List.length_reverse,
      hdigits.length_eq, Nat.add_comm]
  · rintro ⟨value, _, hc, ⟨values, hdigits, rfl⟩, rfl⟩
    refine ⟨value :: values, .cons hc hdigits, ?_⟩
    rw [List.reverse_cons, Nat.ofDigits_append, Nat.ofDigits_singleton, List.length_reverse,
      hdigits.length_eq, Nat.add_comm]

theorem Digits.forall {base n : Nat} {digits : List Char} (h : Digits base digits n) :
    ∀ c ∈ digits, ∃ value, IsDigit base value c := by
  induction digits generalizing n with
  | nil => exact nofun
  | cons c digits ih =>
    obtain ⟨value, m, hc, hdigits, -⟩ := digits_cons_iff.1 h
    exact List.forall_mem_cons.2 ⟨⟨value, hc⟩, ih hdigits⟩

/-- One more digit behind the others. -/
theorem Digits.concat {base n value : Nat} {digits : List Char} {c : Char}
    (h : Digits base digits n) (hc : IsDigit base value c) :
    Digits base (digits ++ [c]) (base * n + value) := by
  obtain ⟨values, hvalues, rfl⟩ := h
  refine ⟨values ++ [value], List.rel_append hvalues (.cons hc .nil), ?_⟩
  rw [List.reverse_append, List.reverse_singleton, List.singleton_append, Nat.ofDigits_cons,
    Nat.add_comm]

/-- The digits that a number is written with stand for it. -/
theorem digits_toDigits {base : Nat} (hbase : 1 < base) (n : Nat) :
    Digits base (Nat.toDigits base n) n := by
  induction n using Nat.strong_induction_on with
  | _ n ih =>
    have hdigit : ∀ value < base, IsDigit base value (Nat.digitChar value) :=
      fun value h => ⟨h, .inl rfl⟩
    rcases Nat.lt_or_ge n base with hlt | hge
    · rw [Nat.toDigits_of_lt_base hlt]
      exact ⟨[n], .cons (hdigit n hlt) .nil, Nat.ofDigits_singleton.symm⟩
    · rw [Nat.toDigits_of_base_le hbase hge]
      have hrest := ih (n / base) (Nat.div_lt_self (by omega) hbase)
      have hlast := hdigit (n % base) (Nat.mod_lt n (by omega))
      have hn := hrest.concat hlast
      rwa [Nat.div_add_mod] at hn

theorem Digits.lt {base n : Nat} {digits : List Char} (h : Digits base digits n) :
    n < base ^ digits.length := by
  induction digits generalizing n with
  | nil =>
    obtain ⟨values, hvalues, rfl⟩ := h
    cases hvalues
    exact Nat.one_pos
  | cons c digits ih =>
    obtain ⟨value, m, hc, hdigits, rfl⟩ := digits_cons_iff.1 h
    calc base ^ digits.length * value + m
        < base ^ digits.length * (value + 1) := by rw [Nat.mul_succ]; have := ih hdigits; omega
      _ ≤ base ^ digits.length * base := Nat.mul_le_mul_left _ hc.1

/-- A fold over digits adds up their number, behind the one that it starts with. -/
theorem foldlM_digitValue? {base : Nat} (hbase : base ≤ 16) {digits : List Char} {start n : Nat} :
    digits.foldlM (fun value c => (digitValue? base c).map (base * value + ·)) start = some n ↔
      ∃ m, Digits base digits m ∧ n = base ^ digits.length * start + m := by
  induction digits generalizing start with
  | nil => simp [Digits, eq_comm]
  | cons c digits ih =>
    simp only [List.foldlM_cons, Option.bind_eq_bind, Option.bind_eq_some_iff,
      Option.map_eq_some_iff, digitValue?_eq_some_iff hbase, ih, digits_cons_iff]
    constructor
    · rintro ⟨_, ⟨value, hc, rfl⟩, m, hdigits, rfl⟩
      exact ⟨_, ⟨value, m, hc, hdigits, rfl⟩, by simp only [List.length_cons]; ring⟩
    · rintro ⟨_, ⟨value, m, hc, hdigits, rfl⟩, rfl⟩
      exact ⟨_, ⟨value, hc, rfl⟩, m, hdigits, by simp only [List.length_cons]; ring⟩

end ScriptMin.Literal
