import ParserMachine.Proofs.Parse

/-!
# Parsers that may be exchanged

Two parsers are equivalent if they end alike wherever they are started (`Parser.Equivalent`). That is
a matter of the expressions alone. What a caller sees of it are the programs that they are compiled to,
which may have little in common: other instructions, other constants, other traffic on the stack.
`Equivalent.interchangeable` says that the caller cannot tell them apart: a parse with the one
program has the outcome of a parse with the other.

`Program.Delivers` is the form in which outcomes are told. What a parse delivers depends neither on the
memory nor on the limits that it is given; these only decide whether it comes to its end.
-/

set_option autoImplicit false

namespace ParserMachine

variable {S : Signature} {rules : Grammar S} {k k' : Kind S.Base}

namespace Program

/-- Whatever memory and limits a parse of the input is given, its outcome is as told by `post`, unless
something runs out. -/
def Delivers (program : Program S) (rules : Grammar S) (p : Parser S k) (input : Input S.Token)
    (name : String) (post : Outcome S.Custom S.Token (S.Val k) → Prop) : Prop :=
  ∀ (scratch : Option (Array UInt8)) (config : Config),
    Yields (Halt.IsExhaustion config (p.NestsEndlessly rules (.ofInput input name)))
      (program.parseWith rules k input scratch name config) post

variable {p : Parser S k} {q : Parser S k'} {program other : Program S} {input input' : Input S.Token}
  {name name' : String}

/-- An outcome is that of an ending. -/
theorem exists_ends (h : p.compile rules = .ok program) {scratch : Option (Array UInt8)}
    {config : Config} {o : Outcome S.Custom S.Token (S.Val k)}
    (ho : program.parseWith rules k input scratch name config = .ok o) :
    ∃ e, p.Ends rules (.ofInput input name) e ∧ o = e.outcome :=
  (parseWith_agrees h input scratch name config).post_of_eq_ok ho

/-- An ending is delivered. -/
theorem delivers_of_ends (h : p.compile rules = .ok program) {e : Ending S k}
    (he : p.Ends rules (.ofInput input name) e) :
    program.Delivers rules p input name (· = e.outcome) := by
  intro scratch config
  refine (parseWith_agrees h input scratch name config).mono ?_
  rintro o ⟨e', he', ho⟩
  rw [ho, he'.unique he]

/-- What is told of the outcomes may be weakened. -/
theorem Delivers.mono {post post' : Outcome S.Custom S.Token (S.Val k) → Prop}
    (h : program.Delivers rules p input name post) (himp : ∀ o, post o → post' o) :
    program.Delivers rules p input name post' := by
  intro scratch config
  exact (h scratch config).mono himp

/-- Where every ending of one parser has a counterpart among the endings of another, every outcome of
the one program has a counterpart that the other delivers. -/
theorem delivers_of_outcome
    {R : Outcome S.Custom S.Token (S.Val k) → Outcome S.Custom S.Token (S.Val k') → Prop}
    (h : p.compile rules = .ok program) (h' : q.compile rules = .ok other)
    (hends : ∀ e, p.Ends rules (.ofInput input name) e →
      ∃ e', q.Ends rules (.ofInput input' name') e' ∧ R e.outcome e'.outcome)
    {scratch : Option (Array UInt8)} {config : Config} {o : Outcome S.Custom S.Token (S.Val k)}
    (ho : program.parseWith rules k input scratch name config = .ok o) :
    other.Delivers rules q input' name' (R o) := by
  obtain ⟨e, he, rfl⟩ := exists_ends h ho
  obtain ⟨e', he', related⟩ := hends e he
  refine (delivers_of_ends h' he').mono ?_
  intro o' ho'
  rwa [ho']

end Program

namespace Parser

/-- The parsers end alike, wherever in an input they are started. -/
def Equivalent (rules : Grammar S) (p q : Parser S k) : Prop :=
  ∀ (w : Reader S.Token) (e : Ending S k), w.Inside → (p.Ends rules w e ↔ q.Ends rules w e)

/-- Callers may take the one parser for the other: if both can be compiled, then on every input of every
source each of the programs delivers the outcome that the other has. -/
def Interchangeable (rules : Grammar S) (p q : Parser S k) : Prop :=
  ∀ program other, p.compile rules = .ok program → q.compile rules = .ok other →
    ∀ (input : Input S.Token) (name : String) (scratch : Option (Array UInt8)) (config : Config)
      (o : Outcome S.Custom S.Token (S.Val k)),
      (program.parseWith rules k input scratch name config = .ok o →
        other.Delivers rules q input name (· = o)) ∧
      (other.parseWith rules k input scratch name config = .ok o →
        program.Delivers rules p input name (· = o))

variable {p q : Parser S k}

namespace Equivalent

/-- Parsers with the same evaluation are equivalent, whatever rules end in. -/
theorem of_evaluateWith
    (h : ∀ (unfold : (r : S.Rule) → Reader S.Token → Option (Ending S (S.ruleKind r)))
      (w : Reader S.Token), p.evaluateWith unfold w = q.evaluateWith unfold w) :
    Equivalent rules p q := by
  intro w e _
  unfold Ends
  simp only [evaluate_eq, h]

/-- What the one parser is to the other, the other is to it. -/
theorem symm (h : Equivalent rules p q) : Equivalent rules q p := by
  intro w e hw
  exact (h w e hw).symm

/-- Equivalent parsers end in the same way at the start of every input. -/
theorem ends_ofInput (h : Equivalent rules p q) {input : Input S.Token} {name : String}
    {e : Ending S k} (he : p.Ends rules (.ofInput input name) e) :
    q.Ends rules (.ofInput input name) e :=
  (h _ e (Reader.inside_ofInput input name)).1 he

/-- An outcome of the one program is delivered by the other. -/
theorem delivers (h : Equivalent rules p q) {program other : Program S}
    (hp : p.compile rules = .ok program) (hq : q.compile rules = .ok other) {input : Input S.Token}
    {name : String} {scratch : Option (Array UInt8)} {config : Config}
    {o : Outcome S.Custom S.Token (S.Val k)}
    (ho : program.parseWith rules k input scratch name config = .ok o) :
    other.Delivers rules q input name (· = o) := by
  refine (Program.delivers_of_outcome hp hq (R := Eq) ?_ ho).mono fun _ => Eq.symm
  intro e he
  exact ⟨e, h.ends_ofInput he, rfl⟩

/-- The programs of equivalent parsers have the same outcomes. -/
theorem interchangeable (h : Equivalent rules p q) : Interchangeable rules p q := by
  intro program other hp hq input name scratch config o
  constructor
  · intro ho
    exact h.delivers hp hq ho
  · intro ho
    exact h.symm.delivers hq hp ho

end Equivalent

end Parser

end ParserMachine
