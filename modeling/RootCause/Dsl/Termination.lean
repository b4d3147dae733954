import RootCause.Dsl.ParserRules

/-! The parser on every token list that is closed by the end of input. `Settles` speaks
of a run that exists, whatever the tokens are; a production that gives up has left an
error behind, and the measure of a loop is what is left of the list. -/
namespace RootCause.Dsl
open Ast ParserM Library

variable {tokens : List Token} {α β σ : Type}

def Parser.kind (p : Parser tokens) : TokenKind := (tokens.get p.pos).kind

def Settles (m : ParserM tokens α) (p : Parser tokens) (post : Option α → Parser tokens → Prop) : Prop :=
  ∃ value q grows, m p = some ⟨value,q,grows⟩ ∧ post value q

/- A production that fails has left an error behind. -/
def Loud (value : Option α) (q : Parser tokens) : Prop := value = none → ¬ Clean q

def Reads (p : Parser tokens) (value : Option α) (q : Parser tokens) : Prop := p.pos < q.pos ∧ Loud value q

def Gives (held : α → Parser tokens → Prop) (value : Option α) (q : Parser tokens) : Prop :=
  ∃ a, value = some a ∧ held a q

/- A round that is followed by another one has read a token. -/
def Consumes (body : σ → ParserM tokens (Bool × σ)) : Prop :=
  ∀ s p s' q, Runs (body s) p (true,s') q → p.pos < q.pos

def Round (p : Parser tokens) (final : Parser tokens → Prop) : Option (Bool × σ) → Parser tokens → Prop :=
  Gives fun next q => if next.1 then p.pos < q.pos else final q

section
variable {p : Parser tokens} {post goal : Option α → Parser tokens → Prop}
  {wanted : Option β → Parser tokens → Prop} {held : α → Parser tokens → Prop}

theorem Settles.weaken {m : ParserM tokens α} (settles : Settles m p post)
    (weaker : ∀ value q, p.Grows q → post value q → goal value q) : Settles m p goal := by
  obtain ⟨value,q,grows,run,held⟩ := settles
  exact ⟨value,q,grows,run,weaker value q grows held⟩

theorem Settles.bind {m : ParserM tokens α} {f : α → ParserM tokens β} (first : Settles m p post)
    (failed : ∀ q, post none q → wanted none q)
    (later : ∀ a q, p.Grows q → post (some a) q → Settles (f a) q wanted) : Settles (m >>= f) p wanted := by
  obtain ⟨value,q,before,run,held⟩ := first
  cases value with
  | none => exact ⟨none,q,before,by simp only [Bind.bind,bind',run],failed q held⟩
  | some a =>
    obtain ⟨value,r,after,last,reached⟩ := later a q before held
    exact ⟨value,r,before.trans after,by simp only [Bind.bind,bind',run,last,Option.map_some],reached⟩

theorem Settles.loudly {m : ParserM tokens α} {f : α → ParserM tokens β} (first : Settles m p Loud)
    (later : ∀ a q, p.Grows q → Settles (f a) q Loud) : Settles (m >>= f) p Loud :=
  first.bind (fun _ failed _ => failed rfl) fun a q grows _ => later a q grows

theorem Settles.reading {m : ParserM tokens α} {f : α → ParserM tokens β} (first : Settles m p (Reads p))
    (later : ∀ a q, p.Grows q → Settles (f a) q Loud) : Settles (m >>= f) p (Reads p) := by
  refine first.bind (fun q failed => ⟨failed.1,fun _ => failed.2 rfl⟩) fun a q grows read => ?_
  exact (later a q grows).weaken fun value r after loud => ⟨Nat.lt_of_lt_of_le read.1 after.1,loud⟩

theorem Settles.given {m : ParserM tokens α} {f : α → ParserM tokens β} (first : Settles m p (Gives held))
    (later : ∀ a q, p.Grows q → held a q → Settles (f a) q wanted) : Settles (m >>= f) p wanted := by
  refine first.bind (fun q failed => ?_) fun a q grows reached => ?_
  · obtain ⟨_,impossible,_⟩ := failed
    contradiction
  · obtain ⟨_,same,held⟩ := reached
    cases same
    exact later a q grows held

theorem settlesPure {a : α} (reached : post (some a) p) : Settles (pure a) p post := ⟨some a,p,_,rfl,reached⟩

theorem settlesLoudly {a : α} : Settles (pure a) p Loud := settlesPure (by simp [Loud])

theorem settlesFail (errors : ¬ Clean p) : Settles (fail : ParserM tokens α) p Loud :=
  ⟨none,p,_,rfl,fun _ => errors⟩

theorem Settles.peek {f : TokenKind → ParserM tokens α} (later : ∀ kind, p.kind = kind → Settles (f kind) p post) :
    Settles (peek >>= f) p post := by
  have read : Settles ParserM.peek p (Gives fun kind q => kind = p.kind ∧ q = p) := ⟨_,p,_,rfl,_,rfl,rfl,rfl⟩
  refine read.given fun kind q _ same => ?_
  obtain ⟨rfl,rfl⟩ := same
  exact later _ rfl

theorem Settles.peekSpan {f : Span → ParserM tokens α} (later : ∀ span, Settles (f span) p post) :
    Settles (peekSpan >>= f) p post := by
  have read : Settles ParserM.peekSpan p (Gives fun _ q => q = p) := ⟨_,p,_,rfl,_,rfl,rfl⟩
  refine read.given fun span q _ same => ?_
  cases same
  exact later span

theorem Settles.error {construct reason : String} {f : Unit → ParserM tokens α}
    (later : ∀ q, q.pos = p.pos → ¬ Clean q → Settles (f ()) q post) :
    Settles (error construct reason >>= f) p post := by
  have pushed : Settles (ParserM.error construct reason) p (Gives fun _ q => q.pos = p.pos ∧ ¬ Clean q) :=
    ⟨some (),_,_,rfl,(),rfl,rfl,by simp [Clean]⟩
  exact pushed.given fun _ q _ after => later q after.1 after.2

theorem Settles.attempt {m : ParserM tokens α} (settles : Settles m p post) :
    Settles (attempt m) p (Gives post) := by
  obtain ⟨value,q,grows,run,held⟩ := settles
  exact ⟨some value,q,grows,by simp [ParserM.attempt,run],value,rfl,held⟩

theorem Settles.read {m : ParserM tokens α} (settles : Settles m p (Gives held)) : Settles m p Loud := by
  refine settles.weaken fun value q _ found => ?_
  obtain ⟨_,rfl,_⟩ := found
  simp [Loud]

theorem Settles.runs {m : ParserM tokens α} {a q} (settles : Settles m p post) (run : Runs m p a q) :
    post (some a) q := by
  obtain ⟨value,r,_,same,held⟩ := settles
  obtain ⟨_,run⟩ := run
  rw [run] at same
  cases same
  exact held

theorem settlesAdvance : Settles advance p (Gives fun _ _ => True) := by
  by_cases more : p.pos.val + 1 < tokens.length
  · exact ⟨_,_,_,dif_pos more,_,rfl,trivial⟩
  · exact ⟨_,_,_,dif_neg more,_,rfl,trivial⟩

theorem settlesTake {a : α} : Settles (advance >>= fun _ => pure a) p Loud :=
  settlesAdvance.read.loudly fun _ _ _ => settlesLoudly

theorem settlesReport {construct reason : String} :
    Settles (error construct reason >>= fun _ => (fail : ParserM tokens α)) p Loud :=
  .error fun _ _ errors => settlesFail errors

theorem settlesExpect {kind construct} : Settles (expect kind construct) p Loud := by
  refine .peek fun found _ => ?_
  split
  · exact settlesAdvance.read
  · exact .peek fun _ _ => settlesReport

theorem settlesIdent {construct} : Settles (expectIdent construct) p Loud := by
  refine .peekSpan fun span => .peek fun kind _ => ?_
  split
  · exact settlesTake
  · exact settlesReport

theorem settlesString {construct} : Settles (expectString construct) p Loud := by
  refine .peekSpan fun span => .peek fun kind _ => ?_
  split
  · exact settlesTake
  · exact settlesReport

theorem settlesInt {construct} : Settles (expectInt construct) p Loud := by
  refine .peekSpan fun span => .peek fun kind _ => ?_
  split
  · exact settlesTake
  · exact settlesReport

theorem Settles.iterate {body : σ → ParserM tokens (Bool × σ)} {final : Parser tokens → Prop} {fuel : Nat}
    {s : σ} (round : ∀ s q, p.Grows q → Settles (body s) q (Round q final))
    (enough : tokens.length ≤ fuel + p.pos.val) : Settles (iterate body fuel s) p (Gives fun _ q => final q) := by
  induction fuel generalizing s p with
  | zero => exact absurd p.pos.isLt (by omega)
  | succ fuel ih =>
    refine (round s p (.refl p)).given fun next q grows after => ?_
    obtain ⟨again,s'⟩ := next
    cases again with
    | true =>
      have moved : p.pos.val < q.pos.val := after
      exact ih (fun s r later => round s r (grows.trans later)) (by omega)
    | false => exact settlesPure ⟨s',rfl,after⟩

theorem loopEnough : tokens.length ≤ loopFuel tokens + p.pos.val := by
  rw [loopFuel]
  omega

theorem roundConsumes {body : σ → ParserM tokens (Bool × σ)} {final : Parser tokens → Prop}
    (round : ∀ s p, Settles (body s) p (Round p final)) : Consumes body := by
  intro s p s' q run
  obtain ⟨next,same,moved⟩ := (round s p).runs run
  cases same
  exact moved

theorem settlesRequireTwo {isAnd span items} : Settles (requireTwo isAnd span items) p (Gives fun _ _ => True) := by
  unfold requireTwo
  split
  · exact ⟨_,_,_,rfl,(),rfl,trivial⟩
  · exact settlesPure ⟨(),rfl,trivial⟩

end

def recoverRound (stop : List TokenKind) (_ : Unit) : ParserM tokens (Bool × Unit) := do
  let kind ← peek
  if kind = .eof ∨ kind ∈ stop then pure (false,())
  else
    let _ ← advance
    pure (true,())

theorem recoverLoop {stop : List TokenKind} :
    (recoverTo stop : ParserM tokens Unit) = iterate (recoverRound stop) (loopFuel tokens) () := rfl

section
variable {p : Parser tokens} (ended : Ended tokens)
include ended

theorem settlesAdvanceHere (visible : p.kind ≠ .eof) : Settles advance p (Gives fun _ q => p.pos < q.pos) :=
  ⟨_,_,_,dif_pos (aheadMore ended visible),_,rfl,Nat.lt_succ_self _⟩

theorem settlesReads (visible : p.kind ≠ .eof) : Settles advance p (Reads p) := by
  refine (settlesAdvanceHere ended visible).weaken fun value q _ read => ?_
  obtain ⟨_,rfl,moved⟩ := read
  exact ⟨moved,by simp [Loud]⟩

theorem settlesExpectHere {kind construct} (here : p.kind = kind) (visible : kind ≠ .eof) :
    Settles (expect kind construct) p (Reads p) := by
  refine .peek fun found same => ?_
  rw [if_pos (same.symm.trans here)]
  exact settlesReads ended (here ▸ visible)

theorem settlesIdentHere {construct name} (here : p.kind = .ident name) :
    Settles (expectIdent construct) p (Reads p) := by
  refine .peekSpan fun span => .peek fun kind same => ?_
  cases same.symm.trans here
  exact (settlesReads ended (by simp [here])).reading fun _ q _ => settlesLoudly

theorem settlesRecoverRound {stop : List TokenKind} {u : Unit} :
    Settles (recoverRound stop u) p (Round p fun q => q.kind = .eof ∨ q.kind ∈ stop) := by
  refine .peek fun kind here => ?_
  split
  · rename_i stopped
    exact settlesPure ⟨_,rfl,by rwa [← here] at stopped⟩
  · rename_i going
    refine (settlesAdvanceHere ended fun last => going (.inl (here.symm.trans last))).given
      fun _ q _ moved => settlesPure ⟨_,rfl,moved⟩

theorem settlesRecoverTo {stop : List TokenKind} :
    Settles (recoverTo stop) p (Gives fun _ q => q.kind = .eof ∨ q.kind ∈ stop) := by
  rw [recoverLoop]
  exact .iterate (fun _ q _ => settlesRecoverRound ended) loopEnough

theorem settlesReadItem {item : ParserM tokens α} {stop items} (each : Settles item p Loud) :
    Settles (readItem item stop items) p (Gives fun _ _ => True) := by
  refine each.attempt.given fun read q _ _ => ?_
  cases read with
  | some x => exact settlesPure ⟨_,rfl,trivial⟩
  | none => exact (settlesRecoverTo ended).given fun _ r _ _ => settlesPure ⟨_,rfl,trivial⟩

theorem settlesComma {items : List α} : Settles (do
    if (← peek) = .comma then
      let _ ← advance
      pure (true,items)
    else pure (false,items)) p (Round p fun _ => True) := by
  refine .peek fun kind here => ?_
  split
  · rename_i comma
    refine (settlesAdvanceHere ended (by simp [here,comma])).given fun _ q _ moved => settlesPure ⟨_,rfl,moved⟩
  · exact settlesPure ⟨_,rfl,trivial⟩

theorem settlesCommaRound {item : ParserM tokens α} {stop items} (each : Settles item p Loud) :
    Settles (commaRound item stop items) p (Round p fun _ => True) := by
  refine (settlesReadItem ended each).given fun longer q grows _ => ?_
  refine (settlesComma ended).weaken fun value r _ round => ?_
  obtain ⟨⟨again,s⟩,rfl,moved⟩ := round
  refine ⟨_,rfl,?_⟩
  cases again with
  | true => exact Nat.lt_of_le_of_lt grows.1 moved
  | false => trivial

theorem settlesCommaList {item : ParserM tokens α} {stop} (each : ∀ q, p.Grows q → Settles item q Loud) :
    Settles (commaList item stop) p (Gives fun _ _ => True) :=
  .iterate (fun _ q grows => settlesCommaRound ended (each q grows)) loopEnough

theorem settlesCommaListUnless {item : ParserM tokens α} {stop} (each : ∀ q : Parser tokens, Settles item q Loud) :
    Settles (commaListUnless item stop) p (Gives fun _ _ => True) := by
  refine .peek fun kind _ => ?_
  split
  · exact settlesPure ⟨_,rfl,trivial⟩
  · exact settlesCommaList ended fun q _ => each q

theorem settlesMetadataValue : Settles parseMetadataValue p Loud := by
  refine .peek fun kind _ => ?_
  split
  · refine settlesAdvance.read.loudly fun _ q _ => ?_
    refine (settlesCommaListUnless ended fun _ => settlesString).read.loudly fun items r _ => ?_
    exact settlesExpect.loudly fun _ r' _ => settlesLoudly
  · exact settlesString.loudly fun _ _ _ => settlesLoudly
  · exact settlesIdent.loudly fun _ _ _ => settlesLoudly
  · refine .error fun q _ errors => (settlesRecoverTo ended).given fun _ r later _ => ?_
    exact settlesFail fun clean => errors (clean.earlier later)

theorem settlesMetadataEntry {name} (here : p.kind = .ident name) : Settles parseMetadataEntry p (Reads p) := by
  refine (settlesIdentHere ended here).reading fun key q _ => ?_
  refine settlesExpect.loudly fun _ r _ => ?_
  exact (settlesMetadataValue ended).loudly fun value r' _ => settlesLoudly

omit ended in
theorem settlesPredicateAttr : Settles parsePredicateAttr p Loud := by
  refine settlesIdent.loudly fun name q _ => settlesExpect.loudly fun _ r _ => .peek fun kind _ => ?_
  split
  · exact settlesString.loudly fun _ _ _ => settlesLoudly
  · exact settlesInt.loudly fun _ _ _ => settlesLoudly
  · exact .peekSpan fun span => settlesTake
  · exact settlesIdent.loudly fun _ _ _ => settlesLoudly
  · exact settlesReport

theorem settlesPredicate : Settles parsePredicate p Loud := by
  refine settlesIdent.loudly fun kind q _ => settlesExpect.loudly fun _ r _ => ?_
  refine (settlesCommaListUnless ended fun _ => settlesPredicateAttr).read.loudly fun attributes r' _ => ?_
  exact settlesExpect.loudly fun close _ _ => settlesLoudly

theorem settlesEvidenceDecl {requiredness} (visible : p.kind ≠ .eof) :
    Settles (parseEvidenceDecl requiredness) p (Reads p) := by
  refine (settlesReads ended visible).reading fun _ q _ => .peekSpan fun start => ?_
  refine settlesIdent.loudly fun name r _ => settlesExpect.loudly fun _ r' _ => ?_
  exact (settlesPredicate ended).loudly fun predicate _ _ => settlesLoudly

theorem settlesDeclRound {requiredness decls} (visible : p.kind ≠ .eof) :
    Settles (declRound requiredness decls) p (Round p fun _ => True) := by
  refine (settlesEvidenceDecl ended visible).attempt.given fun read q _ found => ?_
  cases read with
  | some decl => exact settlesPure ⟨_,rfl,found.1⟩
  | none =>
    refine (settlesRecoverTo ended).given fun _ r later _ => settlesPure ⟨_,rfl,?_⟩
    exact Nat.lt_of_lt_of_le found.1 later.1

theorem settlesSkip {construct reason : String} {stop : List TokenKind} {s : σ} (visible : p.kind ≠ .eof)
    (unexpected : p.kind ∉ stop) : Settles (do
      error construct reason
      recoverTo stop
      pure (true,s)) p (Round p fun _ => True) := by
  refine .error fun q same _ => (settlesRecoverTo ended).given fun _ r later stopped => settlesPure ⟨_,rfl,?_⟩
  have reached : p.pos.val ≤ r.pos.val := same ▸ later.1
  refine Nat.lt_of_le_of_ne reached fun stayed => ?_
  have found : r.kind = p.kind := by rw [Parser.kind,Parser.kind,Fin.ext stayed]
  rw [found] at stopped
  rcases stopped with last | stops
  · exact visible last
  · exact unexpected stops

theorem settlesEvidenceRound {decls} : Settles (evidenceRound decls) p (Round p fun _ => True) := by
  refine .peek fun kind here => ?_
  split
  · exact settlesPure ⟨_,rfl,trivial⟩
  · exact settlesPure ⟨_,rfl,trivial⟩
  · exact settlesDeclRound ended (by simp [here])
  · exact settlesDeclRound ended (by simp [here])
  · rename_i closing last required optional
    exact settlesSkip ended (here ▸ last) (by simpa [here,declKeywords] using ⟨required,optional,closing⟩)

theorem settlesEvidenceSection (here : p.kind = .kwEvidence) : Settles parseEvidenceSection p (Reads p) := by
  rw [evidenceLoop]
  refine (settlesExpectHere ended here (by simp)).reading fun _ q _ => settlesExpect.loudly fun _ r _ => ?_
  have rounds : Settles (iterate evidenceRound (loopFuel tokens) []) r (Gives fun _ _ => True) :=
    .iterate (fun _ _ _ => settlesEvidenceRound ended) loopEnough
  exact rounds.read.loudly fun decls r' _ => settlesExpect.loudly fun _ _ _ => settlesLoudly

theorem settlesBoolExpr {depth : Nat} (deep : tokens.length < depth + p.pos.val) :
    Settles (parseBoolExpr depth) p Loud := by
  induction depth generalizing p with
  | zero => exact absurd p.pos.isLt (by omega)
  | succ depth ih =>
    have operands (isAnd : Bool) (start : Span) (visible : p.kind ≠ .eof) : Settles (do
        let _ ← advance
        let _ ← expect .lParen "boolean expression"
        let items ← commaList (parseBoolExpr depth) .rParen
        let close ← expect .rParen "boolean expression"
        let span := Span.merge start close.span
        requireTwo isAnd span items
        pure (if isAnd then BoolExpr.and items span else BoolExpr.or items span)) p Loud := by
      refine (settlesAdvanceHere ended visible).given fun _ q _ moved => settlesExpect.loudly fun _ r open' => ?_
      have later : ∀ r', r.Grows r' → Settles (parseBoolExpr depth) r' Loud := by
        intro r' grows
        have before : p.pos.val < r'.pos.val := Nat.lt_of_lt_of_le moved (Nat.le_trans open'.1 grows.1)
        exact ih (by omega)
      refine (settlesCommaList ended later).read.loudly fun items _ _ => settlesExpect.loudly fun close _ _ => ?_
      exact settlesRequireTwo.read.loudly fun _ _ _ => settlesLoudly
    refine .peek fun kind here => ?_
    split
    · exact .peekSpan fun start => operands true start (by simp [here])
    · exact .peekSpan fun start => operands false start (by simp [here])
    · refine .peekSpan fun start => (settlesAdvanceHere ended (by simp [here])).given fun _ q _ moved => ?_
      refine settlesExpect.loudly fun _ r open' => ?_
      have before : p.pos.val < r.pos.val := Nat.lt_of_lt_of_le moved open'.1
      refine (ih (p := r) (by omega)).attempt.given fun inner r' _ loud => ?_
      refine settlesExpect.loudly fun close _ closed => ?_
      cases inner with
      | some inner => exact settlesLoudly
      | none => exact settlesFail fun clean => loud rfl (clean.earlier closed)
    · exact settlesIdent.loudly fun _ _ _ => settlesLoudly
    · exact settlesReport

theorem settlesSequenceSection (here : p.kind = .kwSequence) : Settles parseSequenceSection p (Reads p) := by
  refine .peekSpan fun start => (settlesExpectHere ended here (by simp)).reading fun _ q _ => ?_
  refine settlesExpect.loudly fun _ _ _ => settlesExpect.loudly fun _ _ _ => ?_
  refine (settlesCommaListUnless ended fun _ => settlesIdent).read.loudly fun steps _ _ => ?_
  refine settlesExpect.loudly fun close r _ => .peek fun kind _ => ?_
  split
  · refine settlesAdvance.read.loudly fun _ _ _ => settlesExpect.loudly fun _ _ _ => ?_
    exact settlesInt.loudly fun _ _ _ => settlesLoudly
  · exact settlesLoudly

theorem settlesSameCallSection (here : p.kind = .kwSameCall) : Settles parseSameCallSection p (Reads p) := by
  refine .peekSpan fun start => (settlesExpectHere ended here (by simp)).reading fun _ q _ => ?_
  refine settlesExpect.loudly fun _ _ _ => settlesExpect.loudly fun _ _ _ => ?_
  refine (settlesCommaListUnless ended fun _ => settlesIdent).read.loudly fun members _ _ => ?_
  exact settlesExpect.loudly fun close _ _ => settlesLoudly

theorem settlesConstraintSection (visible : p.kind ≠ .eof) : Settles parseConstraintSection p (Reads p) := by
  refine (settlesReads ended visible).reading fun _ q _ => settlesExpect.loudly fun _ r _ => ?_
  exact settlesBoolExpr ended (by simp [loopFuel]; omega)

omit ended in
theorem settlesStoreSection {m : ParserM tokens α} {store : α → Sections} {s : Sections}
    (read : Settles m p (Reads p)) : Settles (storeSection s m store) p (Round p fun _ => True) := by
  refine read.attempt.given fun value q _ found => ?_
  cases value with
  | some a => exact settlesPure ⟨_,rfl,found.1⟩
  | none => exact settlesPure ⟨_,rfl,found.1⟩

theorem settlesSection {s : Sections} : Settles (parseSection s) p (Round p fun _ => True) := by
  refine .peek fun kind here => ?_
  split
  · exact settlesPure ⟨_,rfl,trivial⟩
  · exact settlesPure ⟨_,rfl,trivial⟩
  · exact settlesStoreSection (settlesEvidenceSection ended here)
  · exact settlesStoreSection (settlesConstraintSection ended (by simp [here]))
  · exact settlesStoreSection (settlesSequenceSection ended here)
  · exact settlesStoreSection (settlesSameCallSection ended here)
  · exact settlesStoreSection (settlesMetadataEntry ended here)
  · rename_i closing last evidence constraint sequence sameCall _
    exact settlesSkip ended (here ▸ last)
      (by simpa [here,sectionKeywords] using ⟨evidence,constraint,sequence,sameCall,closing⟩)

theorem settlesPattern : Settles parsePattern p Loud := by
  refine .peekSpan fun start => settlesExpect.loudly fun _ _ _ => settlesIdent.loudly fun id _ _ => ?_
  refine settlesExpect.loudly fun _ _ _ => settlesInt.loudly fun version _ _ => ?_
  refine settlesExpect.loudly fun _ r _ => ?_
  have rounds : Settles (iterate parseSection (loopFuel tokens) ⟨[],[],none,none,none⟩) r
      (Gives fun _ _ => True) := .iterate (fun _ _ _ => settlesSection ended) loopEnough
  refine rounds.read.loudly fun s _ _ => settlesExpect.attempt.given fun closing _ _ _ => ?_
  cases closing with
  | some t => exact settlesLoudly
  | none => exact .peekSpan fun _ => settlesLoudly

theorem commaConsumes {item : ParserM tokens α} {stop : TokenKind} : Consumes (commaRound item stop) := by
  intro items p longer q run
  obtain ⟨items',r,read,rest⟩ := runsBind run
  obtain ⟨next,same,moved⟩ := (settlesComma ended).runs rest
  cases same
  exact Nat.lt_of_le_of_lt read.grows.1 moved

end

def FailsLoudly : Except (Failure Diagnostics) PatternAst → Prop
  | .ok _ => True
  | .error (.error diags) => diags.hasErrors = true
  | .error (.panicked _) => False

theorem parseTerminates (ended : Ended tokens) :
    (∃ result, parseTokens tokens = some result ∧ FailsLoudly result) ∧
    Consumes (parseSection : Sections → ParserM tokens (Bool × Sections)) ∧
    Consumes (evidenceRound : List EvidenceDecl → ParserM tokens (Bool × List EvidenceDecl)) ∧
    (∀ stop, Consumes (recoverRound stop : Unit → ParserM tokens (Bool × Unit))) ∧
    ∀ (α : Type) (item : ParserM tokens α) stop, Consumes (commaRound item stop) := by
  refine ⟨?_,roundConsumes fun _ _ => settlesSection ended,roundConsumes fun _ _ => settlesEvidenceRound ended,
    fun _ => roundConsumes fun _ _ => settlesRecoverRound ended,fun _ _ _ => commaConsumes ended⟩
  have nonempty : 0 < tokens.length := by
    rw [List.length_pos_iff]
    rintro rfl
    simp [Ended] at ended
  obtain ⟨value,q,grows,run,loud⟩ := settlesPattern ended (p := ⟨⟨0,nonempty⟩,[]⟩)
  rw [parseTokens,dif_pos nonempty]
  simp only [run,Option.map_some,Option.some.injEq,exists_eq_left']
  have reported : ¬ Clean q → (parseTokens.reported q.diagnostics).hasErrors = true := by
    intro errors
    have some : q.diagnostics.isEmpty = false := by
      by_contra none
      rw [Bool.not_eq_false,List.isEmpty_iff] at none
      exact errors (by simp [Clean,none])
    rw [parseTokens.reported,some]
    simpa [Clean] using errors
  cases value with
  | none => exact reported (loud rfl)
  | some pattern =>
    cases errors : q.diagnostics.hasErrors with
    | true => simpa [FailsLoudly] using reported (by simp [Clean,errors])
    | false => trivial

def unreadable : List Token :=
  [.kwPattern,.ident "p",.kwVersion,.intLit 1,.lBrace,.rBracket,.rBracket,.kwEvidence,.lBrace,.comma,.kwRequired,
    .comma,.eof].map fun kind => ⟨kind,.startOfFile⟩

theorem unreadableTerminates : (∃ result, parseTokens unreadable = some result ∧ FailsLoudly result) ∧
    (parseTokens unreadable).map (fun result => result.toOption.isSome) = some false :=
  ⟨(parseTerminates (show Ended unreadable from rfl)).1,by decide +kernel⟩

end RootCause.Dsl
