import RootCause.Dsl.Parser

/-! Successful runs of parser actions, and what the accepted tree owes to the
diagnostics: an operand list that is too short leaves an error behind, and an
error is never taken back. -/
namespace RootCause.Dsl
open Ast ParserM

variable {tokens : List Token} {α β σ : Type}

def Runs (m : ParserM tokens α) (p : Parser tokens) (a : α) (q : Parser tokens) : Prop :=
  ∃ grows, m p = some ⟨some a,q,grows⟩

theorem Runs.grows {m : ParserM tokens α} {p q a} (run : Runs m p a q) : p.Grows q := run.1

theorem runsPure {a b : α} {p q : Parser tokens} (run : Runs (pure a) p b q) : a = b ∧ p = q := by
  obtain ⟨_,h⟩ := run
  simp only [pure,pure',Option.some.injEq,Parsed.mk.injEq] at h
  exact h

theorem runsFail {a : α} {p q : Parser tokens} : ¬ Runs (fail : ParserM tokens α) p a q := by
  intro given
  obtain ⟨_,h⟩ := given
  simp [fail] at h

theorem runsOutOfFuel {a : α} {p q : Parser tokens} :
    ¬ Runs (outOfFuel : ParserM tokens α) p a q := by
  intro given
  obtain ⟨_,h⟩ := given
  simp [outOfFuel] at h

theorem runsBind {m : ParserM tokens α} {f : α → ParserM tokens β} {p r b}
    (run : Runs (m >>= f) p b r) : ∃ a q, Runs m p a q ∧ Runs (f a) q b r := by
  obtain ⟨_,h⟩ := run
  simp only [bind,bind'] at h
  split at h
  · contradiction
  · simp at h
  · rename_i a q pq hm
    obtain ⟨parsed,hf,same⟩ := Option.map_eq_some_iff.mp h
    obtain ⟨value,parser,grows⟩ := parsed
    simp only [Parsed.mk.injEq] at same
    obtain ⟨rfl,rfl⟩ := same
    exact ⟨a,q,⟨pq,hm⟩,⟨grows,hf⟩⟩

theorem runsAttempt {m : ParserM tokens α} {p q a} (run : Runs (attempt m) p (some a) q) :
    Runs m p a q := by
  obtain ⟨_,h⟩ := run
  obtain ⟨parsed,hm,same⟩ := Option.map_eq_some_iff.mp h
  obtain ⟨value,parser,grows⟩ := parsed
  simp only [Parsed.mk.injEq,Option.some.injEq] at same
  obtain ⟨rfl,rfl⟩ := same
  exact ⟨grows,hm⟩

theorem runsPush {d : Diagnostic} {u : Unit} {p q : Parser tokens} (run : Runs (push d) p u q) :
    q.diagnostics = p.diagnostics ++ [d] := by
  obtain ⟨_,h⟩ := run
  have parser := congrArg Parsed.parser (Option.some.inj h)
  exact congrArg Parser.diagnostics parser.symm

theorem runsIterate {body : σ → ParserM tokens (Bool × σ)} (invariant : σ → Parser tokens → Prop)
    (kept : ∀ s p again s' q, invariant s p → Runs (body s) p (again,s') q → invariant s' q)
    {fuel s p s' q} (start : invariant s p) (run : Runs (iterate body fuel s) p s' q) :
    invariant s' q := by
  induction fuel generalizing s p with
  | zero => exact absurd run runsOutOfFuel
  | succ fuel ih =>
    obtain ⟨⟨again,next⟩,r,round,rest⟩ := runsBind run
    have after := kept s p again next r start round
    cases again with
    | true => exact ih after rest
    | false =>
      obtain ⟨rfl,rfl⟩ := runsPure rest
      exact after

def ReadBefore (item : ParserM tokens α) (items : List α) (q : Parser tokens) : Prop :=
  ∀ x ∈ items, ∃ p' q', Runs item p' x q' ∧ q'.Grows q

theorem ReadBefore.later {item : ParserM tokens α} {items p q} (h : ReadBefore item items p)
    (grows : p.Grows q) : ReadBefore item items q := by
  intro x mem
  obtain ⟨p',q',run,before⟩ := h x mem
  exact ⟨p',q',run,before.trans grows⟩

theorem runsReadItem {item : ParserM tokens α} {stop items p items' q}
    (before : ReadBefore item items p) (run : Runs (readItem item stop items) p items' q) :
    ReadBefore item items' q := by
  have later := before.later run.grows
  obtain ⟨read,r,first,rest⟩ := runsBind run
  cases read with
  | none =>
    obtain ⟨_,_,_,last⟩ := runsBind rest
    obtain ⟨rfl,rfl⟩ := runsPure last
    exact later
  | some x =>
    obtain ⟨rfl,rfl⟩ := runsPure rest
    intro y mem
    rcases List.mem_append.mp mem with old | new
    · exact later y old
    · cases List.mem_singleton.mp new
      exact ⟨p,r,runsAttempt first,.refl r⟩

theorem runsCommaList {item : ParserM tokens α} {stop p items q}
    (run : Runs (commaList item stop) p items q) : ReadBefore item items q := by
  refine runsIterate (ReadBefore item) ?_ (by simp [ReadBefore]) run
  intro items p again items' q before round
  obtain ⟨longer,r,first,rest⟩ := runsBind round
  have read := runsReadItem before first
  obtain ⟨kind,r',peeked,rest⟩ := runsBind rest
  split at rest
  · obtain ⟨_,_,advanced,rest⟩ := runsBind rest
    obtain ⟨same,rfl⟩ := runsPure rest
    cases same
    exact read.later (peeked.grows.trans advanced.grows)
  · obtain ⟨same,rfl⟩ := runsPure rest
    cases same
    exact read.later peeked.grows

def Clean (p : Parser tokens) : Prop := p.diagnostics.hasErrors = false

theorem Clean.earlier {p q : Parser tokens} (clean : Clean q) (grows : p.Grows q) : Clean p :=
  Diagnostics.cleanPrefix grows.2 clean

theorem runsRequireTwo {isAnd span items u} {p q : Parser tokens}
    (run : Runs (requireTwo isAnd span items) p u q) (clean : Clean q) : 2 ≤ items.length := by
  by_contra short
  rw [requireTwo,if_pos (Nat.lt_of_not_le short)] at run
  rw [Clean,runsPush run] at clean
  simp [operandsDiagnostic] at clean

theorem runsBoolExpr {depth : Nat} {p q : Parser tokens} {e : BoolExpr}
    (run : Runs (parseBoolExpr depth) p e q) (clean : Clean q) : e.Full := by
  induction depth generalizing p e q with
  | zero => exact absurd run runsOutOfFuel
  | succ depth ih =>
    have operands (isAnd : Bool) {start r} (rest : Runs (do
        let _ ← advance
        let _ ← expect .lParen "boolean expression"
        let items ← commaList (parseBoolExpr depth) .rParen
        let close ← expect .rParen "boolean expression"
        let span := Span.merge start close.span
        requireTwo isAnd span items
        pure (if isAnd then BoolExpr.and items span else BoolExpr.or items span)) r e q) :
        e.Full := by
      obtain ⟨_,_,_,rest⟩ := runsBind rest
      obtain ⟨_,_,_,rest⟩ := runsBind rest
      obtain ⟨items,_,list,rest⟩ := runsBind rest
      obtain ⟨_,_,closed,rest⟩ := runsBind rest
      obtain ⟨_,_,two,rest⟩ := runsBind rest
      obtain ⟨rfl,rfl⟩ := runsPure rest
      have each : ∀ x ∈ items, x.Full := by
        intro x mem
        obtain ⟨p',q',item,before⟩ := runsCommaList list x mem
        exact ih item (clean.earlier (before.trans (closed.grows.trans two.grows)))
      cases isAnd with
      | true => exact .and (runsRequireTwo two clean) each
      | false => exact .or (runsRequireTwo two clean) each
    obtain ⟨kind,r,peeked,rest⟩ := runsBind run
    split at rest
    · obtain ⟨_,_,_,rest⟩ := runsBind rest
      exact operands true rest
    · obtain ⟨_,_,_,rest⟩ := runsBind rest
      exact operands false rest
    · obtain ⟨_,_,_,rest⟩ := runsBind rest
      obtain ⟨_,_,_,rest⟩ := runsBind rest
      obtain ⟨_,_,_,rest⟩ := runsBind rest
      obtain ⟨inner,_,read,rest⟩ := runsBind rest
      obtain ⟨_,_,closed,rest⟩ := runsBind rest
      cases inner with
      | none => exact absurd rest runsFail
      | some inner =>
        obtain ⟨rfl,rfl⟩ := runsPure rest
        exact .not (ih (runsAttempt read) (clean.earlier closed.grows))
    · obtain ⟨name,_,_,rest⟩ := runsBind rest
      obtain ⟨rfl,_⟩ := runsPure rest
      exact .evidenceRef name
    · obtain ⟨_,_,_,rest⟩ := runsBind rest
      exact absurd rest runsFail

def SectionsFull (s : Sections) (q : Parser tokens) : Prop :=
  Clean q → ∀ e ∈ s.constraint, e.Full

theorem SectionsFull.later {s : Sections} {p q : Parser tokens} (full : SectionsFull s p)
    (grows : p.Grows q) : SectionsFull s q := fun clean => full (clean.earlier grows)

theorem runsStoreSection {m : ParserM tokens α} {store : α → Sections} {s s' again p q}
    (full : SectionsFull s p) (stored : ∀ a r, Runs m p a r → SectionsFull (store a) r)
    (run : Runs (storeSection s m store) p (again,s') q) : SectionsFull s' q := by
  have later := full.later run.grows
  obtain ⟨read,r,first,rest⟩ := runsBind run
  cases read with
  | none =>
    obtain ⟨same,rfl⟩ := runsPure rest
    cases same
    exact later
  | some a =>
    obtain ⟨same,rfl⟩ := runsPure rest
    cases same
    exact stored a r (runsAttempt first)

theorem runsStoreOther {m : ParserM tokens α} {store : α → Sections} {s s' again p q}
    (full : SectionsFull s p) (run : Runs (storeSection s m store) p (again,s') q)
    (same : ∀ a, (store a).constraint = s.constraint) : SectionsFull s' q := by
  refine runsStoreSection full ?_ run
  intro a r read
  have later := full.later read.grows
  rwa [SectionsFull,← same a] at later

theorem runsSection {s s' : Sections} {again} {p q : Parser tokens} (full : SectionsFull s p)
    (run : Runs (parseSection s) p (again,s') q) : SectionsFull s' q := by
  have later := full.later run.grows
  obtain ⟨kind,r,peeked,rest⟩ := runsBind run
  have before := full.later peeked.grows
  split at rest
  · obtain ⟨same,rfl⟩ := runsPure rest
    cases same
    exact later
  · obtain ⟨same,rfl⟩ := runsPure rest
    cases same
    exact later
  · exact runsStoreOther before rest fun _ => rfl
  · refine runsStoreSection before ?_ rest
    intro e r' read clean e' mem
    cases mem
    obtain ⟨_,_,_,read⟩ := runsBind read
    obtain ⟨_,_,_,read⟩ := runsBind read
    exact runsBoolExpr read clean
  · exact runsStoreOther before rest fun _ => rfl
  · exact runsStoreOther before rest fun _ => rfl
  · exact runsStoreOther before rest fun _ => rfl
  · obtain ⟨_,_,_,rest⟩ := runsBind rest
    obtain ⟨_,_,_,rest⟩ := runsBind rest
    obtain ⟨same,rfl⟩ := runsPure rest
    cases same
    exact later

theorem runsPattern {p q : Parser tokens} {ast : PatternAst} (run : Runs parsePattern p ast q)
    (clean : Clean q) : ∀ e ∈ ast.constraint, e.Full := by
  obtain ⟨_,_,_,rest⟩ := runsBind run
  obtain ⟨_,_,_,rest⟩ := runsBind rest
  obtain ⟨_,_,_,rest⟩ := runsBind rest
  obtain ⟨_,_,_,rest⟩ := runsBind rest
  obtain ⟨_,_,_,rest⟩ := runsBind rest
  obtain ⟨_,_,_,rest⟩ := runsBind rest
  obtain ⟨s,r,loop,rest⟩ := runsBind rest
  have full : SectionsFull s r := runsIterate SectionsFull
    (fun _ _ _ _ _ before round => runsSection before round) (by simp [SectionsFull]) loop
  have grows : r.Grows q := rest.grows
  obtain ⟨_,_,_,rest⟩ := runsBind rest
  obtain ⟨_,_,_,rest⟩ := runsBind rest
  obtain ⟨rfl,_⟩ := runsPure rest
  exact full (clean.earlier grows)

theorem parsedRun {ast : PatternAst} (accepted : parseTokens tokens = some (.ok ast)) :
    ∃ (some : 0 < tokens.length) (q : Parser tokens), Runs parsePattern ⟨⟨0,some⟩,[]⟩ ast q ∧ Clean q := by
  simp only [parseTokens] at accepted
  split at accepted
  · rename_i some
    obtain ⟨⟨value,q,grows⟩,run,outcome⟩ := Option.map_eq_some_iff.mp accepted
    cases value with
    | none => simp at outcome
    | some pattern =>
      simp only at outcome
      split at outcome
      · contradiction
      · rename_i clean
        cases outcome
        exact ⟨some,q,⟨grows,run⟩,Bool.eq_false_iff.mpr clean⟩
  · simp at accepted

theorem parseOk {u : UnicodeClasses} {source : String} {ast : PatternAst} :
    parse u source = some (.ok ast) ↔
      ∃ tokens, tokenize u source = some (.ok tokens) ∧ parseTokens tokens = some (.ok ast) := by
  simp only [parse,Option.bind_eq_bind,Option.bind_eq_some_iff]
  constructor
  · intro given
    obtain ⟨lexed,read,parsed⟩ := given
    cases lexed with
    | error d => simp at parsed
    | ok tokens => exact ⟨tokens,read,parsed⟩
  · intro given
    obtain ⟨tokens,read,parsed⟩ := given
    exact ⟨.ok tokens,read,parsed⟩

theorem parseFull {u : UnicodeClasses} {source : String} {ast : PatternAst}
    (accepted : parse u source = some (.ok ast)) : ∀ e ∈ ast.constraint, e.Full := by
  obtain ⟨tokens,_,parsed⟩ := parseOk.mp accepted
  obtain ⟨_,q,run,clean⟩ := parsedRun parsed
  exact runsPattern run clean

end RootCause.Dsl
