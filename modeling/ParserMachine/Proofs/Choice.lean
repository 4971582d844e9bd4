import ParserMachine.Proofs.Complaints
import ParserMachine.Proofs.Interchange
import ParserMachine.Proofs.Machine.Honesty
import ParserMachine.Proofs.Parser.Failure

/-!
# Laws of choices

A choice of three is grouped as one likes (`Equivalent.or_or`). Whether the third of them runs is decided
by where the second ended, and where all of them fail, their failures merge to the same.

The order matters to a choice both sides of which fail where they started only in how its error is
told: which complaint comes first, and which of two like ones is kept. `ParseError.Resembles` leaves that
out, and the line and column with it. It asks nothing of the `==` of complaints, so what one error
complains of is in the other either itself or by one that it is equal to.
-/

set_option autoImplicit false

namespace ParserMachine

/-! ### Regrouping -/

namespace Ending

variable {S : Signature} {k : Kind S.Base}

/-- Two changes of a failure are one change. -/
theorem mapFailure_mapFailure (e : Ending S k) (f g : Failure S → Failure S) :
    (e.mapFailure f).mapFailure g = e.mapFailure (g ∘ f) := by
  obtain ⟨result, reader⟩ := e
  cases result <;> rfl

/-- A choice whose first part failed at the start goes on with its second part, told with that failure. -/
theorem orElse_of_failed {e : Ending S k} {w : Reader S.Token} {f : Failure S}
    (hresult : e.result = .error f) (hplace : e.reader.cursor.offset = w.cursor.offset)
    (other : Reader S.Token → Option (Ending S k)) :
    e.orElse w other = (other e.reader).map (·.mapFailure f.merge) := by
  rw [orElse, hresult]
  simp only [if_pos hplace]
  cases other e.reader <;> rfl

/-- A failure may be told before the other alternative runs or after it. -/
theorem orElse_mapFailure_merge (e : Ending S k) (f : Failure S) {w w' : Reader S.Token}
    (hstart : w'.cursor.offset = w.cursor.offset) (other : Reader S.Token → Option (Ending S k)) :
    (e.mapFailure f.merge).orElse w other = (e.orElse w' other).map (·.mapFailure f.merge) := by
  obtain ⟨result, reader⟩ := e
  cases result with
  | ok v => rfl
  | error g =>
    by_cases hplace : reader.cursor.offset = w.cursor.offset
    · have merged : f.merge ∘ g.merge = (f.merge g).merge := by
        funext h
        exact (Failure.merge_assoc f g h).symm
      rw [orElse_of_failed (f := f.merge g) rfl hplace,
        orElse_of_failed (f := g) rfl (hplace.trans hstart.symm), Option.map_map]
      simp only [Function.comp_def, mapFailure_mapFailure]
      rw [← merged]
      rfl
    · have hplace' : ¬reader.cursor.offset = w'.cursor.offset := hstart ▸ hplace
      simp [orElse, mapFailure, Except.mapError, hplace, hplace']

/-- Whether the third alternative runs is decided alike in either grouping: by where the second ended. -/
theorem orElse_assoc (e : Ending S k) (w : Reader S.Token)
    (second third : Reader S.Token → Option (Ending S k)) :
    (e.orElse w second >>= fun e => e.orElse w third) =
      e.orElse w fun w => second w >>= fun e => e.orElse w third := by
  obtain ⟨result, reader⟩ := e
  cases result with
  | ok v => rfl
  | error f =>
    by_cases hplace : reader.cursor.offset = w.cursor.offset
    · rw [orElse_of_failed rfl hplace, orElse_of_failed rfl hplace]
      cases second reader with
      | none => rfl
      | some e => exact orElse_mapFailure_merge e f hplace third
    · simp [orElse, hplace]

end Ending

/-! ### Errors that tell the same -/

namespace Complaint

variable {ε : Type} [BEq ε] {complaints more : List (Complaint ε)} {c : Complaint ε}

/-- The complaint is among others, or one that it is equal to. -/
def ToldIn (c : Complaint ε) (complaints : List (Complaint ε)) : Prop :=
  c ∈ complaints ∨ complaints.contains c = true

/-- What is told stays told when more is added. -/
theorem ToldIn.concat (h : c.ToldIn complaints) (d : Complaint ε) : c.ToldIn (complaints ++ [d]) := by
  refine h.imp (List.mem_append_left [d]) ?_
  intro known
  rw [contains_concat, known, Bool.true_or]

/-- A complaint of a pool is one of the first or one of those that were added. -/
theorem mem_of_mem_pool (h : c ∈ pool complaints more) : c ∈ complaints ∨ c ∈ more := by
  induction more using List.reverseRecOn with
  | nil => exact .inl h
  | append_singleton more d ih =>
    rw [pool_concat] at h
    split at h
    · exact (ih h).imp_right (List.mem_append_left [d])
    · rcases List.mem_append.1 h with h | h
      · exact (ih h).imp_right (List.mem_append_left [d])
      · exact .inr (List.mem_append_right more h)

/-- What is added is told, or was before. -/
theorem toldIn_pool (h : c ∈ more) : c.ToldIn (pool complaints more) := by
  induction more using List.reverseRecOn with
  | nil => cases h
  | append_singleton more d ih =>
    rw [pool_concat]
    split
    · next known =>
      rcases List.mem_append.1 h with h | h
      · exact ih h
      · rw [List.mem_singleton.1 h]
        exact .inr known
    · rcases List.mem_append.1 h with h | h
      · exact (ih h).concat d
      · exact .inl (List.mem_append_right _ h)

/-- The order in which complaints are pooled changes nothing in what is told. -/
theorem toldIn_pool_comm {first second : List (Complaint ε)} (h : c ∈ pool [] (first ++ second)) :
    c.ToldIn (pool [] (second ++ first)) := by
  have given : c ∈ first ++ second := (mem_of_mem_pool h).resolve_left List.not_mem_nil
  exact toldIn_pool (List.mem_append.2 (List.mem_append.1 given).symm)

end Complaint

namespace ParseError

variable {ε τ : Type} [Token τ] [BEq ε]

/-- The errors are at one place of one source and tell the same: the same items, or the same
complaints in any order. -/
def Resembles : ParseError ε τ → ParseError ε τ → Prop
  | trivial p u x, trivial p' u' x' => p.same p' = true ∧ u = u' ∧ x = x'
  | fancy p cs, fancy p' cs' =>
    p.same p' = true ∧ (∀ c ∈ cs, c.ToldIn cs') ∧ ∀ c ∈ cs', c.ToldIn cs
  | _, _ => False

/-- An error resembles itself. -/
theorem Resembles.refl (e : ParseError ε τ) : e.Resembles e := by
  cases e with
  | trivial p u x => exact ⟨by simp [Position.same], rfl, rfl⟩
  | fancy p cs => exact ⟨by simp [Position.same], fun c hc => .inl hc, fun c hc => .inl hc⟩

end ParseError

namespace Failure

variable {S : Signature}

/-- Of failures at one place, both orders of telling them resemble each other. -/
theorem resembles_join (f g : Failure S) (name : String)
    (h : f.place.offset = g.place.offset) :
    ((f.join g).error name).Resembles ((g.join f).error name) := by
  have place : (Position.ofCursor name g.place).same (Position.ofCursor name f.place) = true := by
    simp [Position.same, Position.ofCursor, h]
  by_cases empty : f.complaints ++ g.complaints = []
  · have empty' : g.complaints ++ f.complaints = [] := by
      rw [List.append_eq_nil_iff] at empty ⊢
      exact empty.symm
    simp only [error, join, empty, empty']
    exact ⟨place, Item.greater?_comm _ _, SortedSet.union_comm _ _⟩
  · have empty' : ¬g.complaints ++ f.complaints = [] := by
      rw [List.append_eq_nil_iff] at empty ⊢
      exact fun h => empty h.symm
    simp only [error, join, List.isEmpty_iff, empty, empty', if_false]
    exact ⟨place, fun c => Complaint.toldIn_pool_comm, fun c => Complaint.toldIn_pool_comm⟩

/-- Which of two failures came first does not matter to what they come to. -/
theorem resembles_merge (f g : Failure S) (name : String) :
    ((f.merge g).error name).Resembles ((g.merge f).error name) := by
  rcases Std.lt_trichotomy f.place.offset g.place.offset with h | h | h
  · rw [merge_of_lt h, merge_of_gt h]
    exact .refl _
  · rw [merge_of_eq h, merge_of_eq h.symm]
    exact resembles_join f g name h
  · rw [merge_of_gt h, merge_of_lt h]
    exact .refl _

end Failure

/-! ### The laws -/

namespace Program

variable {S : Signature} {rules : Grammar S} {k : Kind S.Base}

/-- A parse of the input came to an error and consumed nothing. -/
def Refuses (program : Program S) (rules : Grammar S) (k : Kind S.Base) (input : Input S.Token)
    (name : String) : Prop :=
  ∃ scratch config o e, program.parseWith rules k input scratch name config = .ok o ∧
    o.consumed = false ∧ o.result = .error e

/-- What refuses an input failed at its beginning. -/
theorem Refuses.exists_ends {p : Parser S k} {program : Program S} {input : Input S.Token}
    {name : String} (h : program.Refuses rules k input name) (hp : p.compile rules = .ok program) :
    ∃ f, p.Ends rules (.ofInput input name) ⟨.error f, .ofInput input name⟩ := by
  obtain ⟨scratch, config, o, e, ho, empty, failed⟩ := h
  obtain ⟨⟨result, reader⟩, he, rfl⟩ := Program.exists_ends hp ho
  have offset : reader.cursor.offset = 0 := by simpa [Ending.outcome] using empty
  have start : reader = .ofInput input name :=
    (he.follows (Reader.inside_ofInput input name)).eq_of_offset_eq offset
  cases result with
  | ok v => cases failed
  | error f => exact ⟨f, start ▸ he⟩

/-- That a program refuses an input can be tried out. -/
theorem Refuses.of_toOption {program : Program S} {input : Input S.Token} {name : String}
    {scratch : Option (Array UInt8)} {config : Config}
    (h : (program.parseWith rules k input scratch name config).toOption.map (fun o =>
      (o.consumed, o.isOk)) = some (false, false)) : program.Refuses rules k input name := by
  cases hparse : program.parseWith rules k input scratch name config with
  | error halt =>
    rw [hparse] at h
    cases h
  | ok o =>
    rw [hparse] at h
    obtain ⟨consumed, result, position⟩ := o
    cases result with
    | ok v => cases h
    | error e =>
      cases h
      exact ⟨scratch, config, _, e, hparse, rfl, rfl⟩

end Program

namespace Parser

variable {S : Signature} {rules : Grammar S} {k : Kind S.Base}

/-- A choice of three is grouped as one likes. -/
theorem Equivalent.or_or (a b c : Parser S k) :
    Equivalent rules (.or (.or a b) c) (.or a (.or b c)) := by
  refine of_evaluateWith ?_
  intro unfold w
  show ((a.evaluateWith unfold w >>= fun e => e.orElse w fun w => b.evaluateWith unfold w) >>=
    fun e => e.orElse w fun w => c.evaluateWith unfold w) = _
  rw [bind_assoc]
  simp only [Ending.orElse_assoc]
  rfl

/-- A choice both sides of which fail at one place. -/
theorem Ends.or_of_failed {a b : Parser S k} {w : Reader S.Token} {f : Failure S} {e : Ending S k}
    (ha : a.Ends rules w ⟨.error f, w⟩) (hb : b.Ends rules w e) :
    (Parser.or a b).Ends rules w (e.mapFailure f.merge) := by
  obtain ⟨m, ha⟩ := ha
  obtain ⟨n, hb⟩ := hb
  refine ⟨max m n, ?_⟩
  have first := evaluate_le (Nat.le_max_left m n) ha
  have second := evaluate_le (Nat.le_max_right m n) hb
  rw [evaluate_eq] at first second ⊢
  show (a.evaluateWith _ w >>= fun e => e.orElse w fun w => b.evaluateWith _ w) = _
  rw [first]
  show (⟨.error f, w⟩ : Ending S k).orElse w (fun w => b.evaluateWith _ w) = some _
  rw [Ending.orElse_of_failed rfl rfl, second]
  rfl

/-- If two alternatives refuse an input, then so does the choice between them, with the error that
their failures come to. -/
theorem delivers_or_of_refuses {a b : Parser S k} {either : Program S} {input : Input S.Token}
    {name : String} {f g : Failure S} (heither : (Parser.or a b).compile rules = .ok either)
    (ha : a.Ends rules (.ofInput input name) ⟨.error f, .ofInput input name⟩)
    (hb : b.Ends rules (.ofInput input name) ⟨.error g, .ofInput input name⟩) :
    either.Delivers rules (.or a b) input name fun o =>
      o.consumed = false ∧ o.result = .error ((f.merge g).error name) := by
  refine (Program.delivers_of_ends heither (ha.or_of_failed hb)).mono ?_
  rintro o rfl
  exact ⟨rfl, rfl⟩

/-- Choices may be regrouped: both groupings have the same outcomes. If both sides of a choice refuse an
input, then in either order so does the choice, and the errors resemble each other. -/
theorem choice_laws (rules : Grammar S) :
    (∀ {k : Kind S.Base} (a b c : Parser S k),
      Interchangeable rules (.or (.or a b) c) (.or a (.or b c))) ∧
    ∀ {k : Kind S.Base} (a b : Parser S k) (first second either other : Program S),
      a.compile rules = .ok first → b.compile rules = .ok second →
      (Parser.or a b).compile rules = .ok either → (Parser.or b a).compile rules = .ok other →
      ∀ (input : Input S.Token) (name : String),
        first.Refuses rules k input name → second.Refuses rules k input name →
        ∃ e e' : S.Error, e.Resembles e' ∧
          (either.Delivers rules (.or a b) input name fun o =>
            o.consumed = false ∧ o.result = .error e) ∧
          other.Delivers rules (.or b a) input name fun o =>
            o.consumed = false ∧ o.result = .error e' := by
  constructor
  · intro k a b c
    exact (Equivalent.or_or a b c).interchangeable
  · intro k a b first second either other hfirst hsecond heither hother input name refused refused'
    -- Both sides have failed at the start, so in either order their failures meet.
    obtain ⟨f, hf⟩ := refused.exists_ends hfirst
    obtain ⟨g, hg⟩ := refused'.exists_ends hsecond
    exact ⟨_, _, Failure.resembles_merge f g name, delivers_or_of_refuses heither hf hg,
      delivers_or_of_refuses hother hg hf⟩

/-! ### Letters that are not there -/

/-- A parser of a letter refuses another, if a parse that is tried says so. -/
theorem exists_refuses {t : Char}
    (h : ((Parser.token t : Parser .characters .token).compile noRules).toOption.map (fun program =>
      (program.parseWith noRules .token otherInput (some #[7, 7, 7]) "text"
        { Config.unbounded with maxStackSize := 128 }).toOption.map fun o => (o.consumed, o.isOk)) =
      some (some (false, false))) :
    ∃ program, (Parser.token t : Parser .characters .token).compile noRules = .ok program ∧
      program.Refuses noRules .token otherInput "text" := by
  cases hcompile : (Parser.token t : Parser .characters .token).compile noRules with
  | error f =>
    rw [hcompile] at h
    cases h
  | ok program =>
    rw [hcompile] at h
    exact ⟨program, rfl, .of_toOption (Option.some.inj h)⟩

/-- Neither letter is there, and in either order both are expected. -/
theorem choice_laws_of_letter : ∃ first second either other,
    (Parser.token 'a' : Parser .characters .token).compile noRules = .ok first ∧
    (Parser.token 'b' : Parser .characters .token).compile noRules = .ok second ∧
    letter.compile noRules = .ok either ∧
    (Parser.or (.token 'b') (.token 'a') : Parser .characters .token).compile noRules = .ok other ∧
    first.Refuses noRules .token otherInput "text" ∧
    second.Refuses noRules .token otherInput "text" ∧
    ∃ e e' : Signature.characters.Error, e.Resembles e' ∧
      (either.Delivers noRules letter otherInput "text" fun o =>
        o.consumed = false ∧ o.result = .error e) ∧
      other.Delivers noRules (.or (.token 'b') (.token 'a')) otherInput "text" fun o =>
        o.consumed = false ∧ o.result = .error e' := by
  obtain ⟨first, hfirst, refused⟩ := exists_refuses (t := 'a') (by decide +kernel)
  obtain ⟨second, hsecond, refused'⟩ := exists_refuses (t := 'b') (by decide +kernel)
  obtain ⟨either, heither⟩ := exists_compile_letter
  obtain ⟨other, hother⟩ : ∃ other,
      (Parser.or (.token 'b') (.token 'a') : Parser .characters .token).compile noRules = .ok other :=
    exists_of_isOk (by decide +kernel)
  exact ⟨first, second, either, other, hfirst, hsecond, heither, hother, refused, refused',
    (choice_laws noRules).2 _ _ first second either other hfirst hsecond heither hother _ _
      refused refused'⟩

end Parser

end ParserMachine
