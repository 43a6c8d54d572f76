import ScriptMin.Proofs.Reading.Gives

/-!
# The token ahead cannot be seen

A reader keeps a token that it looked at, and uses it again in the slash mode that it was read in.
An unbuffered reader keeps none: every request forms its tokens again from the text. The two give
the same answers and stand at the same places, request by request, since the token ahead is always
the one that the text at the cursor gives in its mode. So a token that was read ahead in one mode is
never given in the other.
-/

namespace ScriptMin.Grammar

open Parse

/-! ## Requests -/

/-- What can be asked of a reader. -/
inductive Request where
  /-- Consumes the next token. -/
  | next (mode : SlashMode)
  /-- Looks at the next token. -/
  | peek (mode : SlashMode)
  /-- Consumes the next token where a slash divides, if its kind is in a class. -/
  | takeIf (accepts : Kind → Bool)
  /-- Consumes the next token if a test on it says so, and looks at it otherwise. -/
  | forward (mode : SlashMode) (takes : Token → Bool)
  /-- Consumes the token that was looked at, if one was. -/
  | skip
  /-- Looks at the token after the next one. -/
  | peekSecond
  /-- Reads on in a template after a substitution. -/
  | templateTail
  /-- Notes the place before the next token. -/
  | mark
  /-- Goes back to a place that was noted, counted from the latest one. -/
  | rewind (index : Nat)

/-- The answer of a reader, and the places noted so far, the latest first. -/
def Request.answer (places : List Cursor) : Request → Parse (Option Token × List Cursor)
  | .next mode => return (some (← nextIn mode), places)
  | .peek mode => return (some (← peekIn mode), places)
  | .takeIf accepts => return (← Parse.takeIf accepts, places)
  | .forward mode takes => return (some (← Parse.forward mode takes), places)
  | .skip => do
    Parse.skip
    return (none, places)
  | .peekSecond => return (some (← Parse.peekSecond), places)
  | .templateTail => return (some (← Parse.templateTail), places)
  | .mark => return (none, (← Parse.mark) :: places)
  | .rewind index => do
    if let some place := places[index]? then Parse.rewind place
    return (none, places)

/-- A reader without a token ahead. `seen` is the mode in which the next token was looked at, if it
was: that is the token that `skip` is about. -/
structure Unbuffered where
  cursor : Cursor
  seen : Option SlashMode

/-- The answer of an unbuffered reader, which forms every token from the text. -/
def Request.answerUnbuffered (places : List Cursor) (u : Unbuffered) :
    Request → Except SyntaxError ((Option Token × List Cursor) × Unbuffered)
  | .next mode => do
    let (t, after) ← u.cursor.next mode
    return ((some t, places), ⟨after, none⟩)
  | .peek mode => do
    let (t, _) ← u.cursor.next mode
    return ((some t, places), ⟨u.cursor, some mode⟩)
  | .takeIf accepts => do
    let (t, after) ← u.cursor.next .division
    if accepts t.kind then return ((some t, places), ⟨after, none⟩)
    else return ((none, places), ⟨u.cursor, some .division⟩)
  | .forward mode takes => do
    let (t, after) ← u.cursor.next mode
    return ((some t, places), if takes t then ⟨after, none⟩ else ⟨u.cursor, some mode⟩)
  | .skip =>
    match u.seen with
    | some mode => do
      let (_, after) ← u.cursor.next mode
      return ((none, places), ⟨after, none⟩)
    | none => return ((none, places), u)
  | .peekSecond => do
    let (_, after) ← u.cursor.next .division
    let (t, _) ← after.next .division
    return ((some t, places), ⟨u.cursor, none⟩)
  | .templateTail => do
    let (t, after) ← u.cursor.templateTail
    return ((some t, places), ⟨after, none⟩)
  | .mark => return ((none, u.cursor :: places), u)
  | .rewind index =>
    match places[index]? with
    | some place => return ((none, places), ⟨place, none⟩)
    | none => return ((none, places), u)

/-- The answers to a row of requests, each with the place that is left behind, and the error that
ended them: after an error nothing more is asked. -/
def replies {σ ε : Type}
    (answer : List Cursor → Request → σ → Except ε ((Option Token × List Cursor) × σ))
    (place : σ → Cursor) (places : List Cursor) :
    List Request → σ → List (Option Token × Cursor) × Option ε
  | [], _ => ([], none)
  | request :: requests, state =>
    match answer places request state with
    | .ok ((t, places), state) =>
      let rest := replies answer place places requests state
      ((t, place state) :: rest.1, rest.2)
    | .error error => ([], some error)

/-- The answers of a reader that stands at the start of a source. -/
def bufferedReplies (source : List Char) (requests : List Request) :
    List (Option Token × Cursor) × Option Failure :=
  replies (fun places request r => (request.answer places).run r) Reader.cursor [] requests
    (.ofSource source)

/-- The answers of an unbuffered reader that stands there. -/
def unbufferedReplies (source : List Char) (requests : List Request) :
    List (Option Token × Cursor) × Option SyntaxError :=
  replies (fun places request u => request.answerUnbuffered places u) Unbuffered.cursor [] requests
    ⟨.ofSource source, none⟩

/-- The readers that requests can lead to from the start of a source. -/
inductive Reader.Reached (source : List Char) : Reader → Prop
  | start : Reached source (.ofSource source)
  | step {r r' : Reader} {places places' : List Cursor} {request : Request} {t : Option Token}
    (h : Reached source r) (hanswer : request.answer places r = .ok ((t, places'), r')) :
    Reached source r'

/-! ## One request -/

/-- What is left of a reader without its token ahead. -/
def Reader.unbuffered (r : Reader) : Unbuffered :=
  ⟨r.cursor, r.ahead.map (·.mode)⟩

/-- Two answers: the same one, from a coherent reader and from an unbuffered one at the same place,
or the same error. -/
inductive AnswersAlike {α : Type} :
    Except Failure (α × Reader) → Except SyntaxError (α × Unbuffered) → Prop
  | ok {a : α} {r : Reader} (h : r.Coherent) : AnswersAlike (.ok (a, r)) (.ok (a, r.unbuffered))
  | error (error : SyntaxError) : AnswersAlike (.error (.refused error)) (.error error)

section

variable {r : Reader}

theorem answersAlike_next (mode : SlashMode) (h : r.Coherent) (places : List Cursor) :
    AnswersAlike ((Request.next mode).answer places r)
      ((Request.next mode).answerUnbuffered places r.unbuffered) := by
  show AnswersAlike ((forward mode (fun _ => true) >>= fun t => pure (some t, places)) r)
    (r.cursor.next mode >>= fun result => pure ((some result.1, places), ⟨result.2, none⟩))
  simp only [Bind.bind, StateT.bind, forward_eq h]
  cases r.cursor.next mode with
  | error error => exact .error error
  | ok result => exact .ok (Reader.coherent_fresh result.2)

theorem answersAlike_peek (mode : SlashMode) (h : r.Coherent) (places : List Cursor) :
    AnswersAlike ((Request.peek mode).answer places r)
      ((Request.peek mode).answerUnbuffered places r.unbuffered) := by
  show AnswersAlike ((forward mode (fun _ => false) >>= fun t => pure (some t, places)) r)
    (r.cursor.next mode >>= fun result => pure ((some result.1, places), ⟨r.cursor, some mode⟩))
  simp only [Bind.bind, StateT.bind, forward_eq h]
  cases hnext : r.cursor.next mode with
  | error error => exact .error error
  | ok result => exact .ok (Reader.coherent_ahead hnext)

theorem answersAlike_takeIf (accepts : Kind → Bool) (h : r.Coherent) (places : List Cursor) :
    AnswersAlike ((Request.takeIf accepts).answer places r)
      ((Request.takeIf accepts).answerUnbuffered places r.unbuffered) := by
  show AnswersAlike ((takeIf accepts >>= fun t => pure (t, places)) r)
    (r.cursor.next .division >>= fun result =>
      if accepts result.1.kind then pure ((some result.1, places), ⟨result.2, none⟩)
      else pure ((none, places), ⟨r.cursor, some .division⟩))
  simp only [takeIf, Bind.bind, StateT.bind, forward_eq h]
  cases hnext : r.cursor.next .division with
  | error error => exact .error error
  | ok result =>
    obtain ⟨t, after⟩ := result
    by_cases ht : accepts t.kind
    · simp only [Except.bind, ht, if_true]
      exact .ok (Reader.coherent_fresh after)
    · simp only [Except.bind, ht, Bool.false_eq_true, if_false]
      exact .ok (Reader.coherent_ahead hnext)

theorem answersAlike_forward (mode : SlashMode) (takes : Token → Bool) (h : r.Coherent)
    (places : List Cursor) :
    AnswersAlike ((Request.forward mode takes).answer places r)
      ((Request.forward mode takes).answerUnbuffered places r.unbuffered) := by
  show AnswersAlike ((forward mode takes >>= fun t => pure (some t, places)) r)
    (r.cursor.next mode >>= fun result => pure ((some result.1, places),
      if takes result.1 then ⟨result.2, none⟩ else ⟨r.cursor, some mode⟩))
  simp only [Bind.bind, StateT.bind, forward_eq h]
  cases hnext : r.cursor.next mode with
  | error error => exact .error error
  | ok result =>
    obtain ⟨t, after⟩ := result
    by_cases ht : takes t
    · simp only [Except.bind, ht, if_true]
      exact .ok (Reader.coherent_fresh after)
    · simp only [Except.bind, ht, Bool.false_eq_true, if_false]
      exact .ok (Reader.coherent_ahead hnext)

/-- The token ahead is dropped for the one that the text gives in its mode. -/
theorem answersAlike_skip (h : r.Coherent) (places : List Cursor) :
    AnswersAlike (Request.skip.answer places r)
      (Request.skip.answerUnbuffered places r.unbuffered) := by
  obtain ⟨cursor, ahead⟩ := r
  cases ahead with
  | none => exact .ok (Reader.coherent_fresh cursor)
  | some ahead =>
    have hnext : cursor.next ahead.mode = .ok (ahead.token, ahead.after) := h ahead rfl
    show AnswersAlike (.ok ((none, places), ⟨ahead.after, none⟩))
      (cursor.next ahead.mode >>= fun result => pure ((none, places), ⟨result.2, none⟩))
    rw [hnext]
    exact .ok (Reader.coherent_fresh ahead.after)

theorem answersAlike_peekSecond (h : r.Coherent) (places : List Cursor) :
    AnswersAlike (Request.peekSecond.answer places r)
      (Request.peekSecond.answerUnbuffered places r.unbuffered) := by
  show AnswersAlike ((peekSecond >>= fun t => pure (some t, places)) r)
    (r.cursor.next .division >>= fun first => first.2.next .division >>= fun second =>
      pure ((some second.1, places), ⟨r.cursor, none⟩))
  have hsecond : peekSecond r = (forward .division (fun _ => true) >>= fun _ =>
      forward .division (fun _ => false) >>= fun t =>
        rewind r.cursor >>= fun _ => pure t : Parse Token) r := rfl
  simp only [Bind.bind, StateT.bind, hsecond, forward_eq h]
  cases r.cursor.next .division with
  | error error => exact .error error
  | ok first =>
    simp only [Except.bind, if_true, forward_eq (Reader.coherent_fresh first.2)]
    cases first.2.next .division with
    | error error => exact .error error
    | ok second => exact .ok (Reader.coherent_fresh r.cursor)

theorem answersAlike_templateTail (places : List Cursor) :
    AnswersAlike (Request.templateTail.answer places r)
      (Request.templateTail.answerUnbuffered places r.unbuffered) := by
  show AnswersAlike ((templateTail >>= fun t => pure (some t, places)) r)
    (r.cursor.templateTail >>= fun result => pure ((some result.1, places), ⟨result.2, none⟩))
  have htail : templateTail r = (check r.cursor.templateTail >>= fun result =>
      set (⟨result.2, none⟩ : Reader) >>= fun _ => pure result.1 : Parse Token) r := rfl
  simp only [Bind.bind, StateT.bind, htail]
  cases r.cursor.templateTail with
  | error error => exact .error error
  | ok result => exact .ok (Reader.coherent_fresh result.2)

theorem answersAlike_rewind (index : Nat) (h : r.Coherent) (places : List Cursor) :
    AnswersAlike ((Request.rewind index).answer places r)
      ((Request.rewind index).answerUnbuffered places r.unbuffered) := by
  simp only [Request.answer, Request.answerUnbuffered]
  cases places[index]? with
  | none => exact .ok h
  | some place => exact .ok (Reader.coherent_fresh place)

/-- A reader answers a request as an unbuffered one does, and its token ahead is again the one that
the text gives. -/
theorem answersAlike (h : r.Coherent) (places : List Cursor) (request : Request) :
    AnswersAlike (request.answer places r) (request.answerUnbuffered places r.unbuffered) := by
  cases request with
  | next mode => exact answersAlike_next mode h places
  | peek mode => exact answersAlike_peek mode h places
  | takeIf accepts => exact answersAlike_takeIf accepts h places
  | forward mode takes => exact answersAlike_forward mode takes h places
  | skip => exact answersAlike_skip h places
  | peekSecond => exact answersAlike_peekSecond h places
  | templateTail => exact answersAlike_templateTail places
  | mark => exact .ok h
  | rewind index => exact answersAlike_rewind index h places

end

/-! ## A row of requests -/

/-- The token ahead of a reader that requests lead to is the one that the text gives. -/
theorem Reader.Reached.coherent {source : List Char} {r : Reader} (h : r.Reached source) :
    r.Coherent := by
  induction h with
  | start => exact coherent_fresh _
  | @step r r' places places' request t h hanswer ih =>
    have halike := answersAlike ih places request
    rw [hanswer] at halike
    generalize request.answerUnbuffered places r.unbuffered = answer at halike
    cases halike with
    | ok hcoherent => exact hcoherent

/-- Rows of answers are alike if a first coherent reader and the unbuffered one stand at the same
place. -/
theorem replies_unbuffered (requests : List Request) {r : Reader} (h : r.Coherent)
    (places : List Cursor) :
    replies (fun places request r => (request.answer places).run r) Reader.cursor places requests
        r =
      Prod.map id (Option.map .refused)
        (replies (fun places request u => request.answerUnbuffered places u) Unbuffered.cursor
          places requests r.unbuffered) := by
  induction requests generalizing r places with
  | nil => rfl
  | cons request requests ih =>
    have halike := answersAlike h places request
    unfold replies
    simp only [StateT.run]
    generalize request.answer places r = given, request.answerUnbuffered places r.unbuffered = fresh
      at halike
    cases halike with
    | error error => rfl
    | @ok answer r' hcoherent =>
      obtain ⟨t, places'⟩ := answer
      simp only [StateT.run] at ih
      simp only [ih hcoherent places']
      rfl

/-- Every row of requests has the same answers with the token ahead and without it, each from the
same place, up to the same error. And wherever requests lead, a token that is asked for in one mode
is the one that the text gives in that mode. -/
theorem tokenAhead_unseen (source : List Char) :
    (∀ requests, bufferedReplies source requests =
      Prod.map id (Option.map .refused) (unbufferedReplies source requests)) ∧
    ∀ r, r.Reached source → ∀ mode takes t r', forward mode takes r = .ok (t, r') →
      ∃ after, r.cursor.next mode = .ok (t, after) := by
  refine ⟨fun requests => replies_unbuffered requests (Reader.coherent_fresh _) [], ?_⟩
  intro r hr mode takes t r' hforward
  rw [forward_eq hr.coherent] at hforward
  cases hnext : r.cursor.next mode with
  | error error =>
    rw [hnext] at hforward
    cases hforward
  | ok result =>
    rw [hnext] at hforward
    cases hforward
    exact ⟨result.2, rfl⟩

/-- What was looked at as a regular expression is a division sign when it is asked for as one. -/
theorem tokenAhead_unseen_slash : ∃ r t r', Reader.Reached ['/', 'a', '/'] r ∧
    (r.ahead.map fun ahead => ahead.token.kind) = some .regex ∧
    forward .division (fun _ => true) r = .ok (t, r') ∧ t.kind = .punctuator .slash ∧
    ∃ after, r.cursor.next .division = .ok (t, after) := by
  have hreached : Reader.Reached ['/', 'a', '/'] _ :=
    @Reader.Reached.step _ _ _ [] _ (.peek .regex) _ .start rfl
  exact ⟨_, _, _, hreached, rfl, rfl, rfl,
    (tokenAhead_unseen ['/', 'a', '/']).2 _ hreached .division (fun _ => true) _ _ rfl⟩

end ScriptMin.Grammar
