import ScriptMin.Proofs.Grammar.Program
import ScriptMin.Proofs.Reading.Statement

/-!
# Programs nest, and reading ends

Two levels of nesting are enough for each character that is left, one for the statement and one for
its expression, which may start at the same place. So the rules that a source is read with always
come to an end, and the tree they give nests like the ranges of its nodes.
-/

namespace ScriptMin

open Source Grammar Parse

namespace Grammar

theorem Reader.not_good_zero {source : List Char} {r : Reader} : ¬r.Good source 0 :=
  fun h => Nat.not_lt_zero _ h.left

theorem Reader.coherent_ofSource (source : List Char) : (Reader.ofSource source).Coherent :=
  coherent_fresh _

/-- From a place with nothing before the limit nothing is read. -/
theorem Rules.Proceeds.zero (source : List Char) (rules : Rules) : rules.Proceeds source 0 where
  bound := Nat.zero_le _
  expression _ _ _ h := (Reader.not_good_zero h).elim
  pattern _ _ _ h := (Reader.not_good_zero h).elim
  construct _ _ _ _ h _ := (Reader.not_good_zero h).elim
  statement _ _ h := (Reader.not_good_zero h).elim

/-- With two levels for each character that is left all constructs proceed, and with one level less
those below a statement. -/
theorem proceeds_rules (source : List Char) (bound depth : Nat) :
    (∀ limit ≤ bound, 2 * limit ≤ depth + 1 → (rules bound depth).ProceedsBelow source limit) ∧
      ∀ limit ≤ bound, 2 * limit ≤ depth → (rules bound depth).Proceeds source limit := by
  induction depth with
  | zero =>
    have noneLeft {limit : Nat} (h : 2 * limit ≤ 1) : limit = 0 := by omega
    exact ⟨fun limit _ h => noneLeft h ▸ (Rules.Proceeds.zero source _).toProceedsBelow,
      fun limit _ h => noneLeft (h.trans (Nat.zero_le 1)) ▸ .zero source _⟩
  | succ depth ih =>
    obtain ⟨ihBelow, ihAll⟩ := ih
    have below (limit : Nat) (hbound : limit ≤ bound) (hdepth : 2 * limit ≤ depth + 2) :
        (rules bound (depth + 1)).ProceedsBelow source limit := by
      cases limit with
      | zero => exact (Rules.Proceeds.zero source _).toProceedsBelow
      | succ limit =>
        have inner := ihAll limit (by omega) (by omega)
        exact
          { bound := hbound
            expression := fun f e _ h =>
              (runs_expression inner f e h).mono fun _ _ hx => hx.weaken
            pattern := fun f kind _ h => (runs_pattern inner f kind h).mono fun _ _ hx => hx.weaken
            construct := fun f _ _ _ h ht =>
              (runs_construct inner f h ht).mono fun _ _ hx => ⟨hx.1.weaken, hx.2⟩ }
    refine ⟨below, fun limit hbound hdepth => ?_⟩
    cases limit with
    | zero => exact .zero source _
    | succ limit =>
      have inner := ihAll limit (by omega) (by omega)
      -- the expression of a statement starts where the statement does, one level further down
      have innerBelow := ihBelow (limit + 1) hbound (by omega)
      exact
        { below (limit + 1) hbound (by omega) with
          statement := fun f _ h => runs_statement inner innerBelow f h }

/-- From `r` the reader ends, and a value it gives was read past a token. -/
def Parse.Proceeds {α : Type} (p : Parse α) (r : Reader) : Prop :=
  p.Runs r fun _ r' => r.cursor.Passes r'.cursor.position

theorem Parse.Proceeds.exists_ok {α : Type} {p : Parse α} {r : Reader} (h : p.Proceeds r)
    (hrun : (p.run r).toOption.isSome = true) :
    ∃ a r', p.run r = .ok (a, r') ∧ r.cursor.Passes r'.cursor.position := by
  unfold Parse.Proceeds Runs at h
  unfold StateT.run at *
  split at h
  case h_1 a r' hvalue => exact ⟨a, r', hvalue, h⟩
  case h_2 failure hfailure => simp [hfailure, Except.toOption] at hrun

end Grammar

namespace Program

/-- The end of the input is consumed behind the last statement. -/
theorem runs_read (mode : Mode) (source : List Char) :
    (read mode (byteLength source) (rulesFor source.length)).Runs (.ofSource source)
      fun p _ => p.root.Nests source := by
  have hr : (rulesFor source.length).Proceeds source (source.length + 1) :=
    (proceeds_rules source _ _).2 _ (by omega) (by omega)
  have hstart : Reader.Good source (source.length + 1) (.ofSource source) :=
    ⟨Cursor.standsIn_ofSource source, Reader.coherent_fresh _, Nat.lt_succ_self _⟩
  refine (runs_prologue hr.bound _ hstart).bind fun (directives, strict) r₁ h₁ => ?_
  refine .bind
    (Q := fun statements _ => Row source r₁.cursor.position statements (byteLength source))
    ?_ fun statements _ h => .pure ?_
  · refine .bind (Runs.loop (I := fun read => Spans source _ r₁.cursor read.reverse)
      (Q := fun read _ => Row source r₁.cursor.position read.reverse (byteLength source))
      (fun _ _ h => h.good) (fun read r₂ h₂ => ?_) hr.bound (.refl h₁.good)) fun _ _ h => .pure h
    have hend := h₂.row.mono le_rfl h₂.good.standsIn.isBoundary.le
    refine .bind (Q := fun o r' => ∀ n ∈ o, Reads source (source.length + 1) r₂.cursor [n] r') ?_
      fun o r' ho => ?_
    · refine if_tookEnd h₂.good (fun _ => .pure nofun) fun _ r₃ hs => ?_
      have h₃ := (Spans.refl h₂.good).sees hs
      refine (hr.statement _ h₃.good).bind fun n r₄ hn => .pure ?_
      rintro _ ⟨⟩
      exact h₃.reads hn
    · cases o with
      | none => exact .pure hend
      | some n =>
        have hn := ho n rfl
        exact .pure ⟨h₂.snoc hn.toSpans, hn.lt h₂.good⟩
  · have hroot : Encloses source 0 ⟨0, byteLength source⟩ (directives ++ statements)
        (byteLength source) :=
      ⟨le_rfl, isBoundary_zero, h₁.row.append h, isBoundary_length, le_rfl⟩
    exact (hroot.node (.program _) nofun).nests_one

variable {mode : Mode} {source : List Char} {p : Program}

theorem nests_of_parse (h : parse mode source = .ok p) : p.root.Nests source := by
  have hread := runs_read mode source
  unfold parse readSource at h
  unfold Runs at hread
  split at h <;> cases h
  case h_1 r hvalue =>
    rw [show read mode (byteLength source) (rulesFor source.length) (.ofSource source) = .ok (p, r)
      from hvalue] at hread
    exact hread

/-- Spans nest like the tree. Each node of a program that is read has a span within the source, from
one boundary between characters to a later one, and the spans of its children lie in it, one behind
the other. -/
theorem spans_nest (h : parse mode source = .ok p) :
    ∀ n ∈ p.root.nodes,
      (n.span.start ≤ n.span.stop ∧ n.span.stop ≤ byteLength source) ∧
      (IsBoundary source n.span.start ∧ IsBoundary source n.span.stop) ∧
      (∀ c ∈ n.shape.children, n.span.start ≤ c.span.start ∧ c.span.stop ≤ n.span.stop) ∧
      n.shape.children.Pairwise fun c d => c.span.stop ≤ d.span.start := by
  intro n hn
  have hplaced := nests_of_parse h n hn
  refine ⟨⟨hplaced.children.le, hplaced.stop.le⟩, ⟨hplaced.start, hplaced.stop⟩, fun c hc => ?_,
    hplaced.children.pairwise⟩
  obtain ⟨hstart, -, hstop⟩ := hplaced.children.within hc
  exact ⟨hstart, hstop⟩

/-- Behind a parenthesis that is dropped, a literal that becomes a pattern and a character of two
bytes. -/
theorem spans_nest_target :
    ∃ p, parse .global "(é);[{a:b},...c]=d".toList = .ok p ∧
      ∃ n ∈ p.root.nodes, n.shape.children.map Node.span = [⟨5, 17⟩, ⟨18, 19⟩] ∧
        n.shape.children.Pairwise fun c d => c.span.stop ≤ d.span.start := by
  have hrun : (parse .global "(é);[{a:b},...c]=d".toList).toOption.any (fun p =>
      p.root.nodes.any fun n => n.shape.children.map Node.span == [⟨5, 17⟩, ⟨18, 19⟩]) = true := by
    decide +kernel
  obtain ⟨p, hparse, hcheck⟩ := exists_of_parse _ hrun
  obtain ⟨n, hn, hspans⟩ := List.any_eq_true.1 hcheck
  exact ⟨p, hparse, n, hn, eq_of_beq hspans, (spans_nest hparse n hn).2.2.2⟩

/-- Reading halts. A source is refused, or read as a program, before any bound on the work is
reached. From wherever a reader stands, with `n` characters left, a statement, an expression, a
pattern and a member come to an end with no more than `2 * n + 2` constructs within one another and
no more than `n + 1` rounds of a repetition, those after going back to a place included, and where
they give a value they have passed a token. -/
theorem reading_halts (mode : Mode) (source : List Char) :
    ((∃ p r, (read mode (byteLength source) (rulesFor source.length)).run (.ofSource source) =
          .ok (p, r) ∧ parse mode source = .ok p) ∨
        ∃ e, (read mode (byteLength source) (rulesFor source.length)).run (.ofSource source) =
          .error (.refused e) ∧ parse mode source = .error e) ∧
      ∀ r : Reader, r.Coherent → ∀ bound depth, r.cursor.rest.length + 1 ≤ bound →
        2 * r.cursor.rest.length + 2 ≤ depth → ∀ f : Frame,
        ((rules bound depth).statement f).Proceeds r ∧
          (∀ e, ((rules bound depth).expression f e).Proceeds r) ∧
          (∀ kind, ((rules bound depth).pattern f kind).Proceeds r) ∧
          ∀ host, (member (rules bound depth) f host).Proceeds r := by
  refine ⟨?_, fun r hcoherent bound depth hbound hdepth f => ?_⟩
  · have hread :
        (read mode (byteLength source) (rulesFor source.length)).Runs (.ofSource source) _ :=
      runs_read mode source
    unfold parse readSource
    unfold Runs at hread
    split
    case h_1 p r hrun => exact .inl ⟨p, r, hrun, rfl⟩
    case h_2 e hrun => exact .inr ⟨e, hrun, rfl⟩
    case h_3 hrun =>
      rw [show read mode (byteLength source) (rulesFor source.length) (.ofSource source) =
        .error .exhausted from hrun] at hread
      exact absurd rfl hread
  · obtain ⟨text, hstands⟩ := r.cursor.exists_standsIn
    have h : r.Good text (r.cursor.rest.length + 1) := ⟨hstands, hcoherent, Nat.lt_succ_self _⟩
    have hr : (rules bound depth).Proceeds text (r.cursor.rest.length + 1) :=
      (proceeds_rules text bound depth).2 _ hbound hdepth
    refine ⟨(hr.statement f h).mono fun _ _ hn => hn.passes,
      fun e => (hr.expression f e h).mono fun _ _ hx => hx.passes,
      fun kind => (hr.pattern f kind h).mono fun _ _ hn => hn.passes,
      fun host => (runs_member hr f host h.weaken).mono fun _ _ hm => hm.1.passes⟩

/-- An arrow function, whose parameters are read again after they were tried. -/
theorem reading_halts_arrow :
    ∃ n r, ((rules 7 14).statement (.topLevel false)).run (.ofSource "(a)=>b".toList) =
        .ok (n, r) ∧ (Cursor.ofSource "(a)=>b".toList).Passes r.cursor.position := by
  have hhalts (text : List Char) (htext : text.length = 6) :
      ((rules 7 14).statement (.topLevel false)).Proceeds (.ofSource text) :=
    ((reading_halts .global []).2 (.ofSource text) (Reader.coherent_ofSource text) 7 14
      (Nat.succ_le_succ htext.le) (by simp [Reader.ofSource, Cursor.ofSource, htext])
      (.topLevel false)).1
  exact (hhalts _ (by decide +kernel)).exists_ok (by decide +kernel)

end Program

end ScriptMin
