import ParserMachine.Proofs.Choice

/-!
# Primitives as abbreviations

Some primitives say in one instruction what could be said with others. `oneOf` is a choice of tokens,
`noneOf` a test, `takeWhile1` a token that passes a test and then `takeWhile`, `tokens` one token after the
other, and `eof` is where no token follows.

The first three have the outcomes of what they abbreviate, errors included. The others tell an error in
their own way: `tokens` wants the run and not the next token of it, and `eof` wants the end of the input.
In everything else their outcomes agree (`Outcome.Agrees`).

Choices and runs of any length come down to two facts. Two tests of the next token are one
(`orElse_takeIf`), and with the next token put in front, what matched behind it matches from it on
(`Ending.Matches.cons`).
-/

set_option autoImplicit false

namespace ParserMachine

namespace Reader

variable {τ : Type}

/-- To go on by no token is to stay. -/
theorem next_zero (w : Reader τ) : w.next 0 = w := by
  simp [next, restore, Cursor.next]

/-- To go on twice is to go on by both numbers of tokens at once. -/
theorem next_next (w : Reader τ) (m n : Nat) : (w.next m).next n = w.next (m + n) := by
  simp [next, restore, Cursor.next, UInt64.ofNat_add, UInt64.add_assoc]

/-- Going on by the token that comes next counts one more. -/
theorem offset_next_one {w : Reader τ} {t : τ} (h : w.peek? = some t) :
    (w.next 1).offset = w.offset + 1 :=
  offset_nextLine h

/-- The next token is the first of those that remain. -/
theorem remaining_eq_cons {w : Reader τ} {t : τ} (h : w.peek? = some t) :
    w.remaining = t :: (w.next 1).remaining := by
  obtain ⟨hlt, ht⟩ := Array.getElem?_eq_some_iff.1 h
  rw [remaining_eq, remaining_eq, offset_next_one h, Input.drop_eq_cons _ hlt, ht]
  rfl

/-- Where no token comes next, none remain. -/
theorem remaining_eq_nil {w : Reader τ} (h : w.peek? = none) : w.remaining = [] := by
  rw [peek?_eq_head?] at h
  exact List.head?_eq_none_iff.1 h

end Reader

namespace Parser

variable {S : Signature} {rules : Grammar S}
  {unfold : (r : S.Rule) → Reader S.Token → Option (Ending S (S.ruleKind r))} {w : Reader S.Token}

/-! ### The next token -/

/-- At the end of the input the test is refused. -/
theorem takeIf_of_none (h : w.peek? = none) (test : S.Token → Bool) (expected : List (Item S.Token)) :
    takeIf test expected w = .refused w .endOfInput expected := by
  simp [takeIf, nextItem, h]

/-- Before a token the test is passed or refused by that token. -/
theorem takeIf_of_some {t : S.Token} (h : w.peek? = some t) (test : S.Token → Bool)
    (expected : List (Item S.Token)) :
    takeIf test expected w =
      if test t then ⟨.ok t, w.next 1⟩ else .refused w (.token t) expected := by
  cases htest : test t <;> simp [takeIf, nextItem, h, htest, Option.filter]

/-! ### Choices of tokens -/

/-- A choice of tokens, the first two of them grouped first. -/
def anyToken (t : S.Token) (ts : List S.Token) : Parser S .token :=
  ts.foldl (fun p u => .or p (.token u)) (.token t)

/-- What is refused first is told with what comes after. -/
theorem orElse_of_refused {k : Kind S.Base} (item : Item S.Token) (expected : List (Item S.Token))
    (other : Reader S.Token → Option (Ending S k)) :
    (Ending.refused w item expected).orElse w other = (other w).map (·.mapFailure
      (Failure.merge ⟨w.cursor, some item, .ofList expected, []⟩)) :=
  Ending.orElse_of_failed (e := Ending.refused w item expected) rfl rfl other

/-- Where two alternatives are refused for the same item, either is expected. -/
theorem mapFailure_refused {k : Kind S.Base} (item : Item S.Token)
    (expected expected' : List (Item S.Token)) :
    (Ending.refused w item expected' : Ending S k).mapFailure
      (Failure.merge ⟨w.cursor, some item, .ofList expected, []⟩) =
        .refused w item (expected ++ expected') := by
  have union : SortedSet.ofList expected ∪ SortedSet.ofList expected' =
      SortedSet.ofList (expected ++ expected') := SortedSet.ext fun x => by simp
  have greater : Item.greater? (some item) (some item) = some item :=
    congrArg some ((item.greater_eq_or item).elim id id)
  simp only [Ending.mapFailure, Ending.refused, Except.mapError, Failure.merge_of_eq, Failure.join,
    union, greater, List.append_nil]

/-- Two tests of the next token are one. -/
theorem orElse_takeIf (test test' : S.Token → Bool) (expected expected' : List (Item S.Token))
    (w : Reader S.Token) :
    (takeIf test expected w).orElse w (fun w => some (takeIf test' expected' w)) =
      some (takeIf (fun t => test t || test' t) (expected ++ expected') w) := by
  cases hpeek : w.peek? with
  | none =>
    rw [takeIf_of_none hpeek, takeIf_of_none hpeek, orElse_of_refused, takeIf_of_none hpeek]
    exact congrArg some (mapFailure_refused _ expected expected')
  | some t =>
    rw [takeIf_of_some hpeek, takeIf_of_some hpeek]
    cases first : test t with
    | true => rfl
    | false =>
      rw [if_neg Bool.false_ne_true, orElse_of_refused, takeIf_of_some hpeek, Bool.false_or]
      cases second : test' t with
      | true => rfl
      | false => exact congrArg some (mapFailure_refused _ expected expected')

/-- A choice of tokens is one test, refused with each of them as expected. -/
theorem evaluateWith_anyToken (t : S.Token) (ts : List S.Token) (w : Reader S.Token) :
    (anyToken t ts).evaluateWith unfold w =
      some (takeIf (· ∈ t :: ts) ((t :: ts).map Item.token) w) := by
  induction ts using List.reverseRecOn generalizing w with
  | nil =>
    have only : (fun u => decide (u ∈ [t])) = fun u => decide (u = t) := by
      simp only [List.mem_singleton]
    rw [only]
    rfl
  | append_singleton ts u ih =>
    have either : (fun v => decide (v ∈ t :: (ts ++ [u]))) =
        fun v => decide (v ∈ t :: ts) || decide (v = u) := by
      funext v
      simp [Bool.or_assoc]
    rw [either, ← List.cons_append, List.map_append, ← orElse_takeIf, anyToken, List.foldl_concat]
    show ((anyToken t ts).evaluateWith unfold w >>= fun e =>
      e.orElse w fun w => some (takeIf (· = u) [.token u] w)) = _
    rw [ih]
    rfl

/-! ### Tokens one after the other -/

/-- A token that passes a test, and then all that do. -/
def oneThenMore (test : S.Token → Bool) : Parser S .run :=
  .selectMany (a := .token) (b := .run) (.satisfy test) (fun _ => .takeWhile test) List.cons

/-- A token that passes a test and then all that do are at least one such token. -/
theorem evaluateWith_oneThenMore (test : S.Token → Bool) (w : Reader S.Token) :
    (oneThenMore test).evaluateWith unfold w = some (takeSome test w) := by
  show (takeIf test [] w).andThen (fun t w =>
    (takeRun w (w.remaining.takeWhile test).length).andThen fun run w =>
      some (⟨.ok (List.cons t run), w⟩ : Ending S .run)) = _
  cases hpeek : w.peek? with
  | none =>
    rw [takeIf_of_none hpeek, takeSome, Reader.remaining_eq_nil hpeek, nextItem, hpeek]
    rfl
  | some t =>
    rw [takeIf_of_some hpeek, takeSome, Reader.remaining_eq_cons hpeek, nextItem, hpeek,
      List.takeWhile_cons]
    cases htest : test t with
    | false => rfl
    | true =>
      -- The run behind the token and the token are the run that starts with it.
      simp only [if_true, takeRun, Ending.andThen, Reader.next_next, Reader.remaining_eq_cons hpeek,
        List.length_cons, List.take_succ_cons, Nat.add_comm 1]

/-- The given tokens one after the other. -/
def tokenByToken : List S.Token → Parser S .run
  | [] => .pure (k := .run) []
  | t :: ts => .selectMany (a := .token) (b := .run) (.token t) (fun _ => tokenByToken ts) List.cons

end Parser

namespace Ending

/-- An ending stays as it is where its value is put in place of itself. -/
theorem andThen_of_forall_eq {S : Signature} {k : Kind S.Base} (e : Ending S k)
    {f : S.Val k → S.Val k} (h : ∀ v, f v = v) :
    (e.andThen fun v w => some (⟨.ok (f v), w⟩ : Ending S k)) = some e := by
  simp only [h]
  exact e.andThen_return

variable {S : Signature} {wanted : List S.Token} {w : Reader S.Token} {e : Ending S .run}

/-- The ending of one who wants a run of tokens: behind as much of it as is there, with the run if it is
there as a whole. -/
structure Matches (wanted : List S.Token) (w : Reader S.Token) (e : Ending S .run) : Prop where
  reader : e.reader = w.next (Parser.commonLength wanted w.remaining)
  value : e.result.toOption =
    if Parser.commonLength wanted w.remaining = wanted.length then some wanted else none

/-- With the next token put in front, what matched behind it matches from it on. -/
theorem Matches.cons {t : S.Token} (h : e.Matches wanted (w.next 1)) (ht : w.peek? = some t) :
    (⟨e.result.map (List.cons t), e.reader⟩ : Ending S .run).Matches (t :: wanted) w := by
  have common : Parser.commonLength (t :: wanted) w.remaining =
      Parser.commonLength wanted (w.next 1).remaining + 1 := by
    rw [Reader.remaining_eq_cons ht, Parser.commonLength, if_pos rfl]
  constructor
  case reader => rw [common, h.reader, Reader.next_next, Nat.add_comm]
  case value =>
    have mapped : (e.result.map (List.cons t)).toOption = e.result.toOption.map (List.cons t) := by
      cases e.result <;> rfl
    show (e.result.map (List.cons t)).toOption = _
    rw [common, mapped, h.value, List.length_cons]
    split <;> simp_all

end Ending

namespace Parser

variable {S : Signature} {rules : Grammar S}
  {unfold : (r : S.Rule) → Reader S.Token → Option (Ending S (S.ruleKind r))} {w : Reader S.Token}

/-- What two lists have in common is the same part of either. -/
theorem take_commonLength (wanted found : List S.Token) :
    found.take (commonLength wanted found) = wanted.take (commonLength wanted found) := by
  fun_induction commonLength wanted found with
  | case1 a as bs ih => simp [ih]
  | case2 | case3 => simp

/-- Taking some tokens in a row matches them. -/
theorem matches_takeTokens (wanted : List S.Token) (w : Reader S.Token) :
    (takeTokens wanted w).Matches wanted w := by
  rw [takeTokens]
  split
  · next whole =>
    refine ⟨rfl, ?_⟩
    have run : w.remaining.take (commonLength wanted w.remaining) = wanted := by
      rw [take_commonLength, whole, List.take_length]
    rw [if_pos whole, takeRun, run]
    rfl
  · next partly =>
    refine ⟨rfl, ?_⟩
    rw [if_neg partly]
    rfl

/-- Tokens one after the other match as they do in a row. -/
theorem exists_evaluateWith_tokenByToken (ts : List S.Token) (w : Reader S.Token) :
    ∃ e, (tokenByToken ts).evaluateWith unfold w = some e ∧ e.Matches ts w := by
  induction ts generalizing w with
  | nil =>
    refine ⟨⟨.ok [], w⟩, rfl, ?_, ?_⟩
    · exact w.next_zero.symm
    · rfl
  | cons t ts ih =>
    show ∃ e, (takeIf (· = t) [.token t] w).andThen (fun t w =>
      ((tokenByToken ts).evaluateWith unfold w >>= fun e => e.andThen fun run w =>
        some (⟨.ok (List.cons t run), w⟩ : Ending S .run))) = some e ∧ e.Matches (t :: ts) w
    cases hpeek : w.peek? with
    | none =>
      rw [takeIf_of_none hpeek]
      refine ⟨_, rfl, ?_, ?_⟩ <;> rw [Reader.remaining_eq_nil hpeek]
      · exact w.next_zero.symm
      · rfl
    | some u =>
      rw [takeIf_of_some hpeek]
      -- Either the first token is there and the others are asked for behind it, or nothing is.
      by_cases hu : u = t
      · subst hu
        obtain ⟨e, he, hmatches⟩ := ih (w.next 1)
        rw [if_pos (decide_eq_true rfl)]
        refine ⟨_, ?_, hmatches.cons hpeek⟩
        show ((tokenByToken ts).evaluateWith unfold (w.next 1) >>= _) = _
        rw [he]
        obtain ⟨result, reader⟩ := e
        cases result <;> rfl
      · rw [if_neg (by simpa using hu)]
        refine ⟨_, rfl, ?_, ?_⟩ <;>
          rw [Reader.remaining_eq_cons hpeek, commonLength, if_neg (Ne.symm hu)]
        · exact w.next_zero.symm
        · rfl

/-- The same, the first two grouped first. -/
def tokenAfterToken (ts : List S.Token) : Parser S .run :=
  ts.foldl (fun p t => .selectMany (a := .run) (b := .token) p (fun _ => .token t)
    fun run t => List.append run [t]) (.pure (k := .run) [])

/-- Three in a row may be grouped as one likes, if their values come to the same. -/
theorem evaluateWith_selectMany_selectMany {a b c d e g : Kind S.Base} (p : Parser S a)
    (q : Parser S b) (r : Parser S c) {left : S.Val a → S.Val b → S.Val d}
    {left' : S.Val d → S.Val c → S.Val g} {right : S.Val b → S.Val c → S.Val e}
    {right' : S.Val a → S.Val e → S.Val g}
    (h : ∀ x y z, left' (left x y) z = right' x (right y z)) (w : Reader S.Token) :
    (selectMany (selectMany p (fun _ => q) left) (fun _ => r) left').evaluateWith unfold w =
      (selectMany p (fun _ => selectMany q (fun _ => r) right) right').evaluateWith unfold w := by
  simp only [evaluateWith, bind_assoc, Ending.andThen_assoc]
  -- Both sides run the three in turn, and differ in when they combine the values.
  show (p.evaluateWith unfold w >>= fun e => e.andThen fun x w => q.evaluateWith unfold w >>=
      fun e => e.andThen fun y w => r.evaluateWith unfold w >>= fun e => e.andThen fun z w =>
        some ⟨.ok (left' (left x y) z), w⟩) = _
  simp only [h]
  rfl

/-- Tokens that are added behind a parser come to a run of them behind it. -/
theorem evaluateWith_foldl_tokens (ts : List S.Token) (p : Parser S .run) (w : Reader S.Token) :
    (ts.foldl (fun p t => .selectMany (a := .run) (b := .token) p (fun _ => .token t)
      fun run t => List.append run [t]) p).evaluateWith unfold w =
        (Parser.selectMany (c := .run) p (fun _ => tokenByToken ts) List.append).evaluateWith unfold w := by
  induction ts generalizing p with
  | nil =>
    have unchanged (e : Ending S .run) : (e.andThen fun run w =>
        some (⟨.ok (List.append run []), w⟩ : Ending S .run)) = some e :=
      e.andThen_of_forall_eq List.append_nil
    show p.evaluateWith unfold w = (p.evaluateWith unfold w >>= fun e => e.andThen fun run w =>
      some (⟨.ok (List.append run []), w⟩ : Ending S .run))
    simp only [unchanged]
    exact (bind_pure _).symm
  | cons t ts ih =>
    rw [List.foldl_cons, ih]
    exact evaluateWith_selectMany_selectMany p (.token t) (tokenByToken ts)
      (fun run u run' => List.append_assoc run [u] run') w

/-- On which side tokens are grouped makes no difference to what they evaluate to. -/
theorem evaluateWith_tokenAfterToken (ts : List S.Token) (w : Reader S.Token) :
    (tokenAfterToken ts).evaluateWith unfold w = (tokenByToken ts).evaluateWith unfold w := by
  have unchanged (e : Ending S .run) : (e.andThen fun run w =>
      some (⟨.ok (List.append [] run), w⟩ : Ending S .run)) = some e :=
    e.andThen_of_forall_eq List.nil_append
  rw [tokenAfterToken, evaluateWith_foldl_tokens]
  show ((tokenByToken ts).evaluateWith unfold w >>= fun e => e.andThen fun run w =>
    some (⟨.ok (List.append [] run), w⟩ : Ending S .run)) = _
  simp only [unchanged]
  exact bind_pure _

/-! ### The end of the input -/

/-- Negation of any token succeeds at the end of the input, and is refused by a token. -/
theorem negated_takeIf (w : Reader S.Token) :
    (takeIf (fun _ => true) [] w).negated w =
      match w.peek? with
      | none => ⟨.ok (), w⟩
      | some t => .refused w (.token t) [] := by
  cases hpeek : w.peek? with
  | none => rw [takeIf_of_none hpeek]; rfl
  | some t =>
    have one : (w.next 1).offset - w.offset = 1 := by
      rw [Reader.offset_next_one hpeek, Nat.add_sub_cancel_left]
    rw [takeIf_of_some hpeek, if_pos rfl, Ending.negated]
    simp only [one, nextItem, hpeek, Nat.lt_irrefl, if_false]

end Parser

/-! ### Outcomes -/

namespace Outcome

variable {ε τ α : Type} [Ord τ]

/-- The outcomes are alike in everything but their errors. -/
structure Agrees (o o' : Outcome ε τ α) : Prop where
  consumed : o.consumed = o'.consumed
  value : o.value? = o'.value?
  position : o.position = o'.position

/-- The errors are at one position and tell the same unexpected item, if there are any. -/
def SameUnexpected (o o' : Outcome ε τ α) : Prop :=
  o.error?.map (fun e => (e.position, e.unexpected?)) =
    o'.error?.map fun e => (e.position, e.unexpected?)

end Outcome

/-- The outcome of one who wants a run of tokens: behind as much of it as the input starts with, with the
run if that is all of it. Of a run that is there in part, the part is consumed. -/
structure Outcome.Matches {S : Signature} (wanted : List S.Token) (input : Input S.Token) (name : String)
    (o : Outcome S.Custom S.Token (S.Val .run)) : Prop where
  position : o.position = .ofCursor name
    (Cursor.start.next (.ofNat (Parser.commonLength wanted input.tokens.toList)))
  consumed : o.consumed = decide (0 < Parser.commonLength wanted input.tokens.toList)
  value : o.value? =
    if Parser.commonLength wanted input.tokens.toList = wanted.length then some wanted else none

namespace Ending

variable {S : Signature} {k : Kind S.Base} {e e' : Ending S k} {wanted : List S.Token}

/-- The outcome of an ending has the value of the ending. -/
theorem value?_outcome (e : Ending S k) : e.outcome.value? = e.result.toOption := by
  obtain ⟨f | v, w⟩ := e <;> rfl

/-- Endings with one reader and one value have outcomes that agree. -/
theorem agrees_outcome (hreader : e.reader = e'.reader)
    (hvalue : e.result.toOption = e'.result.toOption) : e.outcome.Agrees e'.outcome where
  consumed := by rw [outcome, outcome, hreader]
  value := by rw [value?_outcome, value?_outcome, hvalue]
  position := by rw [outcome, outcome, hreader]

/-- An ending that matches from the start of the input has an outcome that matches. -/
theorem Matches.outcome {e : Ending S .run} {input : Input S.Token} {name : String}
    (h : e.Matches wanted (.ofInput input name)) : e.outcome.Matches wanted input name := by
  have found : (Reader.ofInput input name).remaining = input.tokens.toList := by
    rw [Reader.remaining_eq]
    rfl
  obtain ⟨hreader, hvalue⟩ := h
  rw [found] at hreader hvalue
  have few : Parser.commonLength wanted input.tokens.toList ≤ (Reader.ofInput input name).remainingSize := by
    rw [← Reader.length_remaining, found]
    exact Parser.commonLength_le_right _ _
  have reached := Reader.offset_next (Reader.inside_ofInput input name) few
  constructor
  case position =>
    rw [Ending.outcome, hreader]
    rfl
  case consumed =>
    rw [Ending.outcome, hreader]
    have start : (Reader.ofInput input name).offset = 0 := rfl
    rw [start, Nat.zero_add] at reached
    refine decide_eq_decide.2 (UInt64.lt_iff_toNat_lt.trans ?_)
    show 0 < ((Reader.ofInput input name).next _).offset ↔ _
    rw [reached]
  case value => rw [value?_outcome, hvalue]

end Ending

namespace Parser

variable {S : Signature} {rules : Grammar S} {k : Kind S.Base} {p q : Parser S k}

/-- Callers may take the one parser for the other as far as outcomes are related by `R`: if both can be
compiled, then on every input of every source each of the programs delivers a counterpart of the outcome
that the other has. -/
def Corresponds (R : Outcome S.Custom S.Token (S.Val k) → Outcome S.Custom S.Token (S.Val k) → Prop)
    (rules : Grammar S) (p q : Parser S k) : Prop :=
  ∀ program other, p.compile rules = .ok program → q.compile rules = .ok other →
    ∀ (input : Input S.Token) (name : String) (scratch : Option (Array UInt8)) (config : Config)
      (o : Outcome S.Custom S.Token (S.Val k)),
      (program.parseWith rules k input scratch name config = .ok o →
        other.Delivers rules q input name (R o)) ∧
      (other.parseWith rules k input scratch name config = .ok o →
        program.Delivers rules p input name (R · o))

/-- An ending without rules unfolded is the ending under any rules. -/
theorem ends_of_evaluateWith {w : Reader S.Token} {e : Ending S k}
    (h : p.evaluateWith (fun _ _ => none) w = some e) : p.Ends rules w e :=
  ⟨0, h⟩

/-- Parsers that end in counterparts wherever they are started have programs with such outcomes. -/
theorem corresponds_of_ends
    {R : Outcome S.Custom S.Token (S.Val k) → Outcome S.Custom S.Token (S.Val k) → Prop}
    (h : ∀ (input : Input S.Token) (name : String), ∃ e e',
      p.evaluateWith (fun _ _ => none) (.ofInput input name) = some e ∧
        q.evaluateWith (fun _ _ => none) (.ofInput input name) = some e' ∧ R e.outcome e'.outcome) :
    Corresponds R rules p q := by
  intro program other hp hq input name scratch config o
  obtain ⟨e, e', he, he', related⟩ := h input name
  have ends : p.Ends rules _ e := ends_of_evaluateWith he
  have ends' : q.Ends rules _ e' := ends_of_evaluateWith he'
  constructor
  · refine Program.delivers_of_outcome hp hq ?_
    intro e₁ he₁
    rw [he₁.unique ends]
    exact ⟨e', ends', related⟩
  · refine Program.delivers_of_outcome (R := fun o o' => R o' o) hq hp ?_
    intro e₁ he₁
    rw [he₁.unique ends']
    exact ⟨e, ends, related⟩

/-- What the parser is compiled to delivers, on every input, the outcome of one who wants the given run. -/
def MatchesRun (rules : Grammar S) (wanted : List S.Token) (p : Parser S .run) : Prop :=
  ∀ program, p.compile rules = .ok program → ∀ (input : Input S.Token) (name : String),
    program.Delivers rules p input name (Outcome.Matches wanted input name)

/-- A parser whose endings match the run has outcomes that match it. -/
theorem matchesRun_of_matches {wanted : List S.Token} {p : Parser S .run}
    (h : ∀ w, ∃ e, p.evaluateWith (fun _ _ => none) w = some e ∧ e.Matches wanted w) :
    MatchesRun rules wanted p := by
  intro program hp input name
  obtain ⟨e, he, hmatches⟩ := h (.ofInput input name)
  refine (Program.delivers_of_ends hp (ends_of_evaluateWith he)).mono ?_
  intro o ho
  rw [ho]
  exact hmatches.outcome

/-- What a primitive is compiled to may be exchanged for what it abbreviates. -/
theorem abbreviation_laws (rules : Grammar S) :
    (∀ (t : S.Token) (ts : List S.Token), Interchangeable rules (.oneOf (t :: ts)) (anyToken t ts)) ∧
    (∀ ts : List S.Token, Interchangeable rules (.noneOf ts) (.satisfy (· ∉ ts))) ∧
    (∀ test : S.Token → Bool, Interchangeable rules (.takeWhile1 test) (oneThenMore test)) ∧
    (∀ ts : List S.Token, MatchesRun rules ts (.tokens ts) ∧ MatchesRun rules ts (tokenByToken ts) ∧
      Corresponds Outcome.Agrees rules (.tokens ts) (tokenByToken ts) ∧
      Interchangeable rules (tokenByToken ts) (tokenAfterToken ts)) ∧
    Corresponds (fun o o' => o.Agrees o' ∧ o.SameUnexpected o') rules .eof (.notFollowedBy .take1) := by
  refine ⟨?_, ?_, ?_, ?_, ?_⟩
  · intro t ts
    refine (Equivalent.of_evaluateWith ?_).interchangeable
    intro unfold w
    exact (evaluateWith_anyToken t ts w).symm
  · intro ts
    refine (Equivalent.of_evaluateWith ?_).interchangeable
    intro unfold w
    rfl
  · intro test
    refine (Equivalent.of_evaluateWith ?_).interchangeable
    intro unfold w
    exact (evaluateWith_oneThenMore test w).symm
  · intro ts
    refine ⟨?_, ?_, ?_, ?_⟩
    · refine matchesRun_of_matches ?_
      intro w
      exact ⟨_, rfl, matches_takeTokens ts w⟩
    · refine matchesRun_of_matches ?_
      intro w
      exact exists_evaluateWith_tokenByToken ts w
    · refine corresponds_of_ends ?_
      intro input name
      obtain ⟨e, he, hmatches⟩ := exists_evaluateWith_tokenByToken ts (.ofInput input name)
      have hmatches' := matches_takeTokens ts (.ofInput input name)
      refine ⟨_, e, rfl, he, Ending.agrees_outcome ?_ ?_⟩
      · rw [hmatches.reader, hmatches'.reader]
      · rw [hmatches.value, hmatches'.value]
    · refine (Equivalent.of_evaluateWith ?_).interchangeable
      intro unfold w
      exact (evaluateWith_tokenAfterToken ts w).symm
  · refine corresponds_of_ends ?_
    intro input name
    refine ⟨_, _, rfl, rfl, ?_⟩
    rw [negated_takeIf, takeEnd]
    cases (Reader.ofInput input name).peek? with
    | none => exact ⟨⟨rfl, rfl, rfl⟩, rfl⟩
    | some t => exact ⟨⟨rfl, rfl, rfl⟩, rfl⟩

/-! ### Letters in place of a set -/

/-- The letters as a set. -/
def letterSet : Parser .characters .token := .oneOf (S := .characters) ['a', 'b']

/-- A run of two letters. -/
def letterRun : Parser .characters .run := .tokens (S := .characters) ['b', 'a']

/-- The choice of letters delivers what the set of them has, and the letters in turn what the run of them
has, of which the input has the first. -/
theorem abbreviation_laws_of_letters : ∃ set choice run inTurn o o',
    letterSet.compile noRules = .ok set ∧ letter.compile noRules = .ok choice ∧
    letterRun.compile noRules = .ok run ∧
    (tokenByToken (S := .characters) ['b', 'a']).compile noRules = .ok inTurn ∧
    set.parseWith noRules .token letterInput (some #[7, 7, 7]) "text"
        { Config.unbounded with maxStackSize := 192 } = .ok o ∧
    choice.Delivers noRules letter letterInput "text" (· = o) ∧
    run.parseWith noRules .run letterInput (some #[7, 7, 7]) "text"
        { Config.unbounded with maxStackSize := 192 } = .ok o' ∧
    inTurn.Delivers noRules (tokenByToken (S := .characters) ['b', 'a']) letterInput "text" o'.Agrees ∧
    o'.consumed = true := by
  have ok : (letterSet.compile noRules).toOption.map (fun set =>
      (set.parseWith noRules .token letterInput (some #[7, 7, 7]) "text"
        { Config.unbounded with maxStackSize := 192 }).isOk) = some true := by
    decide +kernel
  have ok' : (letterRun.compile noRules).toOption.map (fun run =>
      (run.parseWith noRules .run letterInput (some #[7, 7, 7]) "text"
        { Config.unbounded with maxStackSize := 192 }).isOk) = some true := by
    decide +kernel
  obtain ⟨set, hset⟩ : ∃ set, letterSet.compile noRules = .ok set := exists_of_isOk (by decide +kernel)
  obtain ⟨run, hrun⟩ : ∃ run, letterRun.compile noRules = .ok run := exists_of_isOk (by decide +kernel)
  obtain ⟨choice, hchoice⟩ := exists_compile_letter
  obtain ⟨inTurn, hinTurn⟩ : ∃ inTurn,
      (tokenByToken (S := .characters) ['b', 'a']).compile noRules = .ok inTurn :=
    exists_of_isOk (by decide +kernel)
  rw [hset] at ok
  rw [hrun] at ok'
  obtain ⟨o, ho⟩ := exists_of_isOk (Option.some.inj ok)
  obtain ⟨o', ho'⟩ := exists_of_isOk (Option.some.inj ok')
  obtain ⟨choices, -, -, runs, -⟩ := abbreviation_laws noRules
  obtain ⟨matchesRun, -, corresponds, -⟩ := runs ['b', 'a']
  refine ⟨set, choice, run, inTurn, o, o', hset, hchoice, hrun, hinTurn, ho, ?_, ho', ?_, ?_⟩
  · exact (choices 'a' ['b'] set choice hset hchoice letterInput "text" _ _ o).1 ho
  · exact (corresponds run inTurn hrun hinTurn letterInput "text" _ _ o').1 ho'
  · -- The first letter of the run is there, and the second is not.
    have delivered := (matchesRun run hrun letterInput "text" _ _).post_of_eq_ok ho'
    exact delivered.consumed

end Parser

end ParserMachine
