import ParserMachine.Proofs.Complaints
import ParserMachine.Proofs.Items
import ParserMachine.Proofs.Parser.Evaluation

/-!
# Failures are true to the input

What a failure says of the input is so (`Failure.Honest`): the unexpected item is there at the place of
the failure, none of the expected items is, and the place lies in the input or behind its last token.
Each primitive fails honestly where it stands. Combinations only move failures on: `Failure.merge` joins
two of one place, `Failure.renamed` drops what was expected, and going back moves the reader, not the
place. `Parser.Ends.honest` is the result of the induction.

`Failure.Honest.error` carries it over to parse errors, where complaints are told once each.
-/

set_option autoImplicit false

namespace ParserMachine

variable {τ : Type}

/-! ### What errors say of the input -/

/-- A token or a run of tokens is in the input at the given place. -/
def Item.IsAt (input : Input τ) (place : Nat) : Item τ → Prop
  | token t => input.tokens[place]? = some t
  | tokens run => run <+: input.tokens.toList.drop place
  | label _ | endOfInput => True

/-- The item is not in the input at the given place. Of names, nothing is said. -/
def Item.IsMissing (input : Input τ) (place : Nat) : Item τ → Prop
  | token t => input.tokens[place]? ≠ some t
  | tokens run => ¬ run <+: input.tokens.toList.drop place
  | label _ => True
  | endOfInput => place < input.size

/-- The error lies in the input or behind its last token. If it tells items, an unexpected one is among
them and is there, and no expected one is there. If it tells complaints, there are some, and no two
alike. -/
def ParseError.Honest {ε : Type} [Ord τ] [BEq ε] (input : Input τ) : ParseError ε τ → Prop
  | trivial position unexpected expected =>
    position.offset.toNat ≤ input.size ∧
      (∃ item, unexpected = some item ∧ item.IsAt input position.offset.toNat) ∧
      ∀ item ∈ expected, item.IsMissing input position.offset.toNat
  | fancy position complaints =>
    position.offset.toNat ≤ input.size ∧ complaints ≠ [] ∧
      complaints.Pairwise fun a b => (a == b) = false

variable {S : Signature} {input : Input S.Token} {f g : Failure S} {k a b : Kind S.Base}

/-- What the failure says of the input is so. -/
structure Failure.Honest (input : Input S.Token) (f : Failure S) : Prop where
  inside : f.place.offset.toNat ≤ input.size
  tells : f.complaints ≠ [] ∨ ∃ item, f.unexpected = some item
  found : ∀ item, f.unexpected = some item → item.IsAt input f.place.offset.toNat
  missing : ∀ item ∈ f.expected, item.IsMissing input f.place.offset.toNat

/-- If the parser failed, it failed honestly. -/
def Ending.Honest (input : Input S.Token) (e : Ending S k) : Prop :=
  ∀ f, e.result = .error f → f.Honest input

/-! ### Errors of failures -/

/-- The error that an honest failure comes to is honest. -/
theorem Failure.Honest.error [EquivBEq S.Custom] (h : f.Honest input) (name : String) :
    (f.error name).Honest input := by
  rw [Failure.error]
  split
  · next none =>
    have told := h.tells.resolve_left (by simpa using none)
    obtain ⟨item, hitem⟩ := told
    exact ⟨h.inside, ⟨item, hitem, h.found item hitem⟩, h.missing⟩
  · next some =>
    have told : f.complaints ≠ [] := by simpa using some
    exact ⟨h.inside, Complaint.pool_ne_nil (.inr told), Complaint.pairwise_pool .nil⟩

/-! ### Failures moved on -/

namespace Failure.Honest

/-- Where two failures meet, the greater of their unexpected items is one of them, and none of what
either expected is there. -/
theorem merge (hf : f.Honest input) (hg : g.Honest input) : (f.merge g).Honest input := by
  rw [Failure.merge]
  split
  · exact hg
  · exact hf
  · next same =>
    have place : f.place.offset = g.place.offset := (Std.LawfulEqOrd.eq_of_compare same).symm
    have found := hf.found
    have missing := hf.missing
    rw [place] at found missing
    refine ⟨hg.inside, ?_, fun item hitem => ?_, fun item hitem => ?_⟩
    · rcases hf.tells, hg.tells with ⟨told | told, told' | told'⟩
      · exact .inl (List.append_ne_nil_of_left_ne_nil told _)
      · exact .inl (List.append_ne_nil_of_left_ne_nil told _)
      · exact .inl (List.append_ne_nil_of_right_ne_nil _ told')
      · exact .inr (Item.exists_greater? (.inl told))
    · exact (Item.greater?_eq_some hitem).elim (found item) (hg.found item)
    · exact (SortedSet.mem_union.1 hitem).elim (missing item) (hg.missing item)

/-- A failure by another name is honest, since nothing is said of labels. -/
theorem renamed (hf : f.Honest input) (name : Option String) : (f.renamed name).Honest input where
  inside := hf.inside
  tells := hf.tells
  found := hf.found
  missing item hitem := by
    have label : item ∈ (name.map Item.label).toList := by simpa [Failure.renamed] using hitem
    cases name with
    | none => cases label
    | some name =>
      cases List.mem_singleton.1 label
      trivial

end Failure.Honest

/-! ### Endings -/

variable {w : Reader S.Token}

namespace Parser

/-- The next item is there: a token, or the end of the input. -/
theorem isAt_nextItem (w : Reader S.Token) : (nextItem w).IsAt w.input w.offset := by
  rw [nextItem]
  cases h : w.peek? with
  | none => trivial
  | some t => exact h

/-- The tokens that come next are there as a run. -/
theorem isAt_take (w : Reader S.Token) (n : Nat) :
    (Item.tokens (w.remaining.take n)).IsAt w.input w.offset := by
  rw [Reader.remaining_eq]
  exact List.take_prefix n _

/-- The items that a refused run of tokens names are there. -/
theorem isAt_nextItems (w : Reader S.Token) (wanted : Nat) :
    (nextItems w wanted).IsAt w.input w.offset := by
  rw [nextItems]
  split
  · trivial
  · exact isAt_take w wanted

/-- A token that passes a test is not there where no token does. -/
theorem isMissing_of_filter {test : S.Token → Bool} (h : w.peek?.filter test = none) {t : S.Token}
    (ht : test t = true) : (Item.token t).IsMissing w.input w.offset := by
  intro found
  rw [Reader.peek?, found, Option.filter_some, if_pos ht] at h
  cases h

/-- A list that begins another has as many tokens in common with it as it has. -/
theorem commonLength_of_prefix {wanted found : List S.Token} (h : wanted <+: found) :
    commonLength wanted found = wanted.length := by
  obtain ⟨rest, rfl⟩ := h
  induction wanted with
  | nil => rfl
  | cons t wanted ih => rw [List.cons_append, commonLength, if_pos rfl, ih, List.length_cons]

end Parser

namespace Ending

/-- A refusal is honest if its items are. -/
theorem honest_refused (hw : w.Inside) {unexpected : Item S.Token} {expected : List (Item S.Token)}
    (hfound : unexpected.IsAt w.input w.offset)
    (hmissing : ∀ item ∈ expected, item.IsMissing w.input w.offset) :
    (refused w unexpected expected : Ending S k).Honest w.input := by
  rintro f ⟨⟩
  refine ⟨hw, .inr ⟨unexpected, rfl⟩, ?_, fun item hitem => hmissing item (SortedSet.mem_ofList.1 hitem)⟩
  rintro item ⟨⟩
  exact hfound

/-- What did not fail is honest. -/
theorem honest_ok (v : S.Val k) (w : Reader S.Token) : (⟨.ok v, w⟩ : Ending S k).Honest input := by
  rintro f ⟨⟩

/-- Taking a token is honest if the test is passed by each token that it says was expected. -/
theorem honest_takeIf (hw : w.Inside) {test : S.Token → Bool} {expected : List (Item S.Token)}
    (h : ∀ item ∈ expected, ∃ t, item = .token t ∧ test t = true) :
    (Parser.takeIf test expected w).Honest w.input := by
  rw [Parser.takeIf]
  split
  · exact honest_ok _ _
  · next none =>
    refine honest_refused hw (Parser.isAt_nextItem w) ?_
    intro item hitem
    obtain ⟨t, rfl, ht⟩ := h item hitem
    exact Parser.isMissing_of_filter none ht

/-- Taking some tokens in a row is honest: the run was not there where only a part of it matched. -/
theorem honest_takeTokens (hw : w.Inside) (wanted : List S.Token) :
    (Parser.takeTokens wanted w).Honest w.input := by
  rw [Parser.takeTokens]
  split
  · exact honest_ok _ _
  · next partly =>
    have refusal : (refused w (Parser.nextItems w wanted.length) [.tokens wanted] :
        Ending S .run).Honest w.input := by
      refine honest_refused hw (Parser.isAt_nextItems w _) ?_
      intro item hitem
      obtain rfl := List.mem_singleton.1 hitem
      intro there
      rw [← Reader.remaining_eq] at there
      exact partly (Parser.commonLength_of_prefix there)
    exact fun f hf => refusal f hf

/-- Taking a number of tokens is honest: it names the end of the input as unexpected, and expects
nothing. -/
theorem honest_takeCount (hw : w.Inside) (n : Nat) : (Parser.takeCount n w).Honest w.input := by
  rw [Parser.takeCount]
  split
  · exact honest_refused hw trivial (by simp)
  · exact honest_ok _ _

/-- Taking at least one token that passes a test is honest. -/
theorem honest_takeSome (hw : w.Inside) (p : S.Token → Bool) :
    (Parser.takeSome p w).Honest w.input := by
  rw [Parser.takeSome]
  split
  · exact honest_refused hw (Parser.isAt_nextItem w) (by simp)
  · exact honest_ok _ _

/-- Asking for the end of the input is honest: it is refused only where a token is left. -/
theorem honest_takeEnd (hw : w.Inside) : (Parser.takeEnd w).Honest w.input := by
  rw [Parser.takeEnd]
  split
  · exact honest_ok _ _
  · next t ht =>
    refine honest_refused hw ht ?_
    intro item hitem
    obtain rfl := List.mem_singleton.1 hitem
    exact (Array.getElem?_eq_some_iff.1 ht).1

/-- Taking a line break is honest, as it names what it expects by a label. -/
theorem honest_takeLineBreak (hw : w.Inside) : (Parser.takeLineBreak w).Honest w.input := by
  rw [Parser.takeLineBreak]
  split
  · exact honest_ok _ _
  · refine honest_refused hw (Parser.isAt_nextItem w) ?_
    intro item hitem
    obtain rfl := List.mem_singleton.1 hitem
    trivial

/-- Negation is honest about the run that its parser consumed, or about the next item if that was none. -/
theorem honest_negated (e : Ending S k) (hw : w.Inside) : (e.negated w).Honest w.input := by
  rw [negated]
  split
  · refine honest_refused hw ?_ (by simp)
    split
    · exact Parser.isAt_take w _
    · exact Parser.isAt_nextItem w
  · exact honest_ok _ _

namespace Honest

variable {e : Ending S k}

/-- Going back to the start keeps a failure as it is. -/
theorem retried (h : e.Honest input) (w : Reader S.Token) : (e.retried w).Honest input := by
  rw [Ending.retried]
  split
  · exact h
  · next f hf =>
    rintro f ⟨⟩
    exact h f hf

/-- An honest ending stays so under a change that keeps failures honest. -/
theorem mapFailure (h : e.Honest input) {change : Failure S → Failure S}
    (hchange : ∀ f, f.Honest input → (change f).Honest input) : (e.mapFailure change).Honest input := by
  intro f hf
  rw [Ending.mapFailure] at hf
  cases hresult : e.result with
  | ok v =>
    rw [hresult] at hf
    cases hf
  | error f' =>
    rw [hresult] at hf
    cases hf
    exact hchange f' (h f' hresult)

/-- A sequence is honest if both its parts are. -/
theorem andThen {e : Ending S a} {next : S.Val a → Reader S.Token → Option (Ending S b)}
    {e' : Ending S b} (h : e.Honest input)
    (hnext : ∀ v e', next v e.reader = some e' → e'.Honest input) (he : e.andThen next = some e') :
    e'.Honest input := by
  rcases andThen_eq_some he with ⟨v, -, hv⟩ | ⟨f, hf, rfl⟩
  · exact hnext v e' hv
  · rintro f' ⟨⟩
    exact h f hf

/-- An ending by another name is honest. -/
theorem relabelled (h : e.Honest input) (w : Reader S.Token) (name : Option String) :
    (e.relabelled w name).Honest input := by
  rw [Ending.relabelled]
  split
  · exact h.mapFailure fun f hf => hf.renamed name
  · exact h

/-- A successful look ahead has no failure, and a failed one keeps its own. -/
theorem peeked (h : e.Honest input) (w : Reader S.Token) : (e.peeked w).Honest input := by
  rw [Ending.peeked]
  split
  · exact honest_ok _ _
  · exact h

/-- The error that a caller is told is honest. -/
theorem observed [EquivBEq S.Custom] (h : e.Honest input) {error : S.Error}
    (herror : e.observed = .error error) : error.Honest input := by
  rw [Ending.observed] at herror
  cases hresult : e.result with
  | ok v =>
    rw [hresult] at herror
    cases herror
  | error f =>
    rw [hresult] at herror
    cases herror
    exact (h f hresult).error e.reader.name

end Honest

end Ending

/-! ### Parsers -/

namespace Parser

variable {rules : Grammar S}

/-- Where rules fail honestly, parsers do. -/
theorem evaluateWith_honest
    {unfold : (r : S.Rule) → Reader S.Token → Option (Ending S (S.ruleKind r))}
    (hfollows : ∀ r w e, w.Inside → unfold r w = some e → e.reader.Follows w)
    (h : ∀ r w e, w.Inside → unfold r w = some e → e.Honest w.input) (p : Parser S k)
    {e : Ending S k} (hw : w.Inside) (he : p.evaluateWith unfold w = some e) : e.Honest w.input := by
  induction p generalizing w with
  | pure v =>
    cases he
    exact Ending.honest_ok v w
  | error c =>
    cases he
    rintro f ⟨⟩
    exact ⟨hw, .inl (List.cons_ne_nil c []), fun _ hitem => (nomatch hitem),
      fun item hitem => absurd hitem (SortedSet.not_mem_empty item)⟩
  | token t =>
    cases he
    exact Ending.honest_takeIf hw fun item hitem => ⟨t, List.mem_singleton.1 hitem, by simp⟩
  | tokens ts =>
    cases he
    exact Ending.honest_takeTokens hw ts
  -- These name nothing that they expect.
  | satisfy p | noneOf ts | take1 =>
    cases he
    exact Ending.honest_takeIf hw (by simp)
  | oneOf ts =>
    cases he
    refine Ending.honest_takeIf hw ?_
    intro item hitem
    obtain ⟨t, ht, rfl⟩ := List.mem_map.1 hitem
    exact ⟨t, rfl, by simpa using ht⟩
  | take n =>
    cases he
    exact Ending.honest_takeCount hw n
  | takeWhile p =>
    cases he
    exact Ending.honest_ok _ _
  | takeWhile1 p =>
    cases he
    exact Ending.honest_takeSome hw p
  | eof =>
    cases he
    exact Ending.honest_takeEnd hw
  | newline =>
    cases he
    exact Ending.honest_takeLineBreak hw
  | map p f ih =>
    obtain ⟨e₁, h₁, he⟩ := Option.bind_eq_some_iff.1 he
    refine (ih hw h₁).andThen (fun v e hv => ?_) he
    cases hv
    exact Ending.honest_ok _ _
  -- The second parser fails at its own start; it is still the same input that it is honest about.
  | bind p f ih ihf =>
    obtain ⟨e₁, h₁, he⟩ := Option.bind_eq_some_iff.1 he
    have follows := evaluateWith_follows hfollows p hw h₁
    refine (ih hw h₁).andThen (fun v e hv => ?_) he
    rw [← follows.input_eq]
    exact ihf v follows.inside hv
  | selectMany p f project ih ihf =>
    obtain ⟨e₁, h₁, he⟩ := Option.bind_eq_some_iff.1 he
    have follows := evaluateWith_follows hfollows p hw h₁
    refine (ih hw h₁).andThen (fun v e hv => ?_) he
    obtain ⟨e₂, h₂, he⟩ := Option.bind_eq_some_iff.1 hv
    rw [← follows.input_eq]
    refine (ihf v follows.inside h₂).andThen (fun v e hv => ?_) he
    cases hv
    exact Ending.honest_ok _ _
  -- Only a choice merges failures. What the merged one tells, one of the two tells.
  | or p q ihp ihq =>
    obtain ⟨e₁, h₁, he⟩ := Option.bind_eq_some_iff.1 he
    have follows := evaluateWith_follows hfollows p hw h₁
    rcases Ending.orElse_eq_some he with rfl | ⟨f, e₂, hf, -, h₂, rfl⟩
    · exact ihp hw h₁
    · have second := ihq follows.inside h₂
      rw [follows.input_eq] at second
      exact second.mapFailure fun g hg => (ihp hw h₁ f hf).merge hg
  | «try» p ih =>
    obtain ⟨e₁, h₁, he⟩ := Option.bind_eq_some_iff.1 he
    cases he
    exact (ih hw h₁).retried w
  | label name p ih | hidden p ih =>
    obtain ⟨e₁, h₁, he⟩ := Option.bind_eq_some_iff.1 he
    cases he
    exact (ih hw h₁).relabelled w _
  | lookAhead p ih =>
    obtain ⟨e₁, h₁, he⟩ := Option.bind_eq_some_iff.1 he
    cases he
    exact (ih hw h₁).peeked w
  | notFollowedBy p ih =>
    obtain ⟨e₁, h₁, he⟩ := Option.bind_eq_some_iff.1 he
    cases he
    exact e₁.honest_negated hw
  -- What was observed is a value from here on; the parser itself does not fail.
  | observing p ih =>
    obtain ⟨e₁, h₁, he⟩ := Option.bind_eq_some_iff.1 he
    cases he
    exact Ending.honest_ok _ _
  | rule r => exact h r w e hw he

/-- Whatever the depth, an evaluation ends honestly. -/
theorem evaluate_honest {depth : Nat} {p : Parser S k} {e : Ending S k} (hw : w.Inside)
    (he : p.evaluate rules depth w = some e) : e.Honest w.input := by
  induction depth generalizing k p w with
  | zero =>
    exact evaluateWith_honest (fun r w e _ h => by cases h) (fun r w e _ h => by cases h) p hw he
  | succ depth ih =>
    exact evaluateWith_honest (fun r w e hw h => evaluate_follows hw h) (fun r w e hw h => ih hw h) p
      hw he

/-- Parsers that fail do so honestly. -/
theorem Ends.honest {p : Parser S k} {e : Ending S k} (h : p.Ends rules w e) (hw : w.Inside) :
    e.Honest w.input := by
  obtain ⟨depth, he⟩ := h
  exact evaluate_honest hw he

end Parser

end ParserMachine
