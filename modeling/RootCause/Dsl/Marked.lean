import RootCause.Dsl.Accounted
import RootCause.Dsl.Pointing

/-! The parser reports and returns no spans but those of its tokens and merged ones: one
rule for each action, then every production through its parts. -/
namespace RootCause.Dsl
open Ast ParserM Library

variable {tokens : List Token} {α β σ : Type}

def Marks (S : Span → Prop) (m : ParserM tokens α) (held : α → Prop) : Prop :=
  ∀ p r, Diagnostics.At S p.diagnostics → m p = some r →
    Diagnostics.At S r.parser.diagnostics ∧ ∀ a ∈ r.value, held a

section
variable {S : Span → Prop} {held : α → Prop} {wanted : β → Prop}

theorem Marks.bind {m : ParserM tokens α} {f : α → ParserM tokens β} (first : Marks S m held)
    (later : ∀ a, held a → Marks S (f a) wanted) : Marks S (m >>= f) wanted := by
  intro p r before run
  simp only [Bind.bind,bind'] at run
  split at run
  · contradiction
  · rename_i q grows failed
    cases run
    exact ⟨(first p _ before failed).1,by simp⟩
  · rename_i a q grows read
    obtain ⟨last,again,rfl⟩ := Option.map_eq_some_iff.mp run
    obtain ⟨reported,value⟩ := first p _ before read
    exact later a (value a rfl) q last reported again

theorem marksPure {a : α} (here : held a) : Marks S (pure a : ParserM tokens α) held := by
  intro p r before run
  cases run
  exact ⟨before,by simpa using here⟩

theorem marksFail : Marks S (fail : ParserM tokens α) held := by
  intro p r before run
  cases run
  exact ⟨before,by simp⟩

theorem marksOutOfFuel : Marks S (outOfFuel : ParserM tokens α) held := by
  intro p r before run
  cases run

theorem Marks.weaken {m : ParserM tokens α} {held' : α → Prop} (marks : Marks S m held)
    (weaker : ∀ a, held a → held' a) : Marks S m held' := by
  intro p r before run
  obtain ⟨reported,value⟩ := marks p r before run
  exact ⟨reported,fun a mem => weaker a (value a mem)⟩

theorem Marks.peek {f : TokenKind → ParserM tokens α} (later : ∀ kind, Marks S (f kind) held) :
    Marks S (peek >>= f) held := by
  have read : Marks S (ParserM.peek : ParserM tokens TokenKind) fun _ => True := by
    intro p r before run
    cases run
    exact ⟨before,by simp⟩
  exact read.bind fun kind _ => later kind

theorem marksPush {d : Diagnostic} (here : S d.location) :
    Marks S (push d : ParserM tokens Unit) fun _ => True := by
  intro p r before run
  cases run
  exact ⟨before.append (atOne here),by simp⟩

theorem Marks.attempt {m : ParserM tokens α} (marks : Marks S m held) :
    Marks S (attempt m) fun read => ∀ a ∈ read, held a := by
  intro p r before run
  obtain ⟨inner,read,rfl⟩ := Option.map_eq_some_iff.mp run
  obtain ⟨reported,value⟩ := marks p inner before read
  exact ⟨reported,by simpa using value⟩

theorem Marks.iterate {body : σ → ParserM tokens (Bool × σ)} {fuel : Nat} {s : σ} (invariant : σ → Prop)
    (round : ∀ s, invariant s → Marks S (body s) fun next => invariant next.2) (start : invariant s) :
    Marks S (iterate body fuel s) invariant := by
  induction fuel generalizing s with
  | zero => exact marksOutOfFuel
  | succ fuel ih =>
    refine (round s start).bind fun next kept => ?_
    obtain ⟨again,s'⟩ := next
    cases again with
    | true => exact ih kept
    | false => exact marksPure kept

end

section
variable {S : Span → Prop} {held : α → Prop} (marked : ∀ t ∈ tokens, S t.span)
include marked

theorem Marks.peekSpan {f : Span → ParserM tokens α} (later : ∀ span, S span → Marks S (f span) held) :
    Marks S (peekSpan >>= f) held := by
  have read : Marks S (ParserM.peekSpan : ParserM tokens Span) S := by
    intro p r before run
    cases run
    exact ⟨before,by simpa using marked _ (List.get_mem _ _)⟩
  exact read.bind later

theorem marksAdvance : Marks S (ParserM.advance : ParserM tokens Token) fun t => S t.span := by
  intro p r before run
  unfold ParserM.advance at run
  split at run
  all_goals
    cases run
    exact ⟨before,by simpa using marked _ (List.get_mem _ _)⟩

theorem Marks.advance {f : Token → ParserM tokens α} (later : ∀ t, S t.span → Marks S (f t) held) :
    Marks S (ParserM.advance >>= f) held := (marksAdvance marked).bind later

theorem marksError {construct reason : String} :
    Marks S (error construct reason : ParserM tokens Unit) fun _ => True :=
  .peekSpan marked fun _ here => marksPush here

theorem marksReport {construct reason : String} :
    Marks S (error construct reason >>= fun _ => (fail : ParserM tokens α)) held :=
  (marksError marked).bind fun _ _ => marksFail

theorem marksTake {a : α} (here : held a) : Marks S (ParserM.advance >>= fun _ => (pure a : ParserM tokens α)) held :=
  .advance marked fun _ _ => marksPure here

theorem marksExpect {kind construct} : Marks S (expect kind construct : ParserM tokens Token) fun t => S t.span := by
  refine .peek fun found => ?_
  split
  · exact marksAdvance marked
  · exact .peek fun _ => marksReport marked

theorem marksIdent {construct} : Marks S (expectIdent construct : ParserM tokens SpannedString) fun s => S s.span := by
  refine .peekSpan marked fun span here => .peek fun kind => ?_
  split
  · exact marksTake marked here
  · exact marksReport marked

theorem marksString {construct} : Marks S (expectString construct : ParserM tokens SpannedString) fun s => S s.span := by
  refine .peekSpan marked fun span here => .peek fun kind => ?_
  split
  · exact marksTake marked here
  · exact marksReport marked

theorem marksInt {construct} : Marks S (expectInt construct : ParserM tokens SpannedInt) fun n => S n.span := by
  refine .peekSpan marked fun span here => .peek fun kind => ?_
  split
  · exact marksTake marked here
  · exact marksReport marked

theorem marksRecover {stop : List TokenKind} : Marks S (recoverTo stop : ParserM tokens Unit) fun _ => True := by
  refine .iterate (fun _ => True) (fun _ _ => .peek fun kind => ?_) trivial
  split
  · exact marksPure trivial
  · exact marksTake marked trivial

theorem marksSkip {construct reason : String} {stop : List TokenKind} {s : σ} {invariant : Bool × σ → Prop}
    (kept : invariant (true,s)) : Marks S (do
      error construct reason
      recoverTo stop
      pure (true,s) : ParserM tokens (Bool × σ)) invariant :=
  (marksError marked).bind fun _ _ => (marksRecover marked).bind fun _ _ => marksPure kept

theorem marksReadItem {item : ParserM tokens α} {stop items} (each : Marks S item held)
    (before : ∀ x ∈ items, held x) : Marks S (readItem item stop items) fun longer => ∀ x ∈ longer, held x := by
  refine each.attempt.bind fun read found => ?_
  cases read with
  | none => exact (marksRecover marked).bind fun _ _ => marksPure before
  | some x =>
    refine marksPure fun y mem => ?_
    rcases List.mem_append.mp mem with mem | mem
    · exact before y mem
    · cases List.mem_singleton.mp mem
      exact found x rfl

theorem marksCommaList {item : ParserM tokens α} {stop} (each : Marks S item held) :
    Marks S (commaList item stop) fun items => ∀ x ∈ items, held x := by
  refine .iterate (fun items => ∀ x ∈ items, held x) (fun items before => ?_) (by simp)
  refine (marksReadItem marked each before).bind fun longer all => .peek fun kind => ?_
  split
  · exact marksTake marked all
  · exact marksPure all

theorem marksCommaListUnless {item : ParserM tokens α} {stop} (each : Marks S item held) :
    Marks S (commaListUnless item stop) fun items => ∀ x ∈ items, held x := by
  refine .peek fun kind => ?_
  split
  · exact marksPure (by simp)
  · exact marksCommaList marked each

end

section
variable {S : Span → Prop} (marked : ∀ t ∈ tokens, S t.span)
  (merged : ∀ s t, S s → S t → S (s.merge t))
include marked

theorem marksMetadataValue : Marks S (parseMetadataValue : ParserM tokens MetadataValue) fun v => v.Within S := by
  refine .peek fun kind => ?_
  split
  · refine .advance marked fun _ _ => ?_
    refine (marksCommaListUnless marked (marksString marked)).bind fun items each => ?_
    exact (marksExpect marked).bind fun _ _ => marksPure each
  · exact (marksString marked).bind fun s here => marksPure here
  · exact (marksIdent marked).bind fun s here => marksPure here
  · exact (marksError marked).bind fun _ _ => (marksRecover marked).bind fun _ _ => marksFail

include merged

theorem marksMetadataEntry : Marks S (parseMetadataEntry : ParserM tokens MetadataEntry) fun e => e.Within S := by
  refine (marksIdent marked).bind fun key here => (marksExpect marked).bind fun _ _ => ?_
  refine (marksMetadataValue marked).bind fun value within => marksPure ⟨here,within,merged _ _ here ?_⟩
  cases value with
  | ident s => exact within
  | str s => exact within
  | strList items =>
    cases last : items.getLast? with
    | none => simpa [last] using here
    | some s => simpa [last] using within s (List.mem_of_getLast? last)

theorem marksPredicateAttr : Marks S (parsePredicateAttr : ParserM tokens PredicateAttr) fun a => a.Within S := by
  refine (marksIdent marked).bind fun name here => (marksExpect marked).bind fun _ _ => .peek fun kind => ?_
  have finished (v : Ast.AttrValue) (own : S v.span) : Marks S (do
      let value ← pure v
      pure ⟨name,value,name.span.merge value.span⟩ : ParserM tokens PredicateAttr) fun a => a.Within S := by
    have read : Marks S (pure v : ParserM tokens Ast.AttrValue) fun v => S v.span := marksPure own
    exact read.bind fun _ within => marksPure ⟨here,within,merged _ _ here within⟩
  split
  · exact (marksString marked).bind fun s own => finished (.str s) own
  · exact (marksInt marked).bind fun n own => finished (.int n) own
  · exact .peekSpan marked fun span own => .advance marked fun _ _ => finished (.bool ⟨_,span⟩) own
  · exact (marksIdent marked).bind fun s own => finished (.ident s) own
  · have none' : Marks S (fail : ParserM tokens Ast.AttrValue) fun _ => False := marksFail
    exact (marksError marked).bind fun _ _ => none'.bind fun _ impossible => impossible.elim

theorem marksPredicate : Marks S (parsePredicate : ParserM tokens Predicate) fun p => p.Within S := by
  refine (marksIdent marked).bind fun kind here => (marksExpect marked).bind fun _ _ => ?_
  refine (marksCommaListUnless marked (marksPredicateAttr marked merged)).bind fun attributes each => ?_
  exact (marksExpect marked).bind fun close end' => marksPure ⟨here,each,merged _ _ here end'⟩

theorem marksEvidenceDecl {requiredness} :
    Marks S (parseEvidenceDecl requiredness : ParserM tokens EvidenceDecl) fun d => d.Within S := by
  refine .advance marked fun _ _ => .peekSpan marked fun start first => ?_
  refine (marksIdent marked).bind fun name here => (marksExpect marked).bind fun _ _ => ?_
  refine (marksPredicate marked merged).bind fun predicate within => ?_
  exact marksPure ⟨here,within,merged _ _ first within.own⟩

theorem marksDeclRound {requiredness} {decls : List EvidenceDecl} (before : ∀ d ∈ decls, d.Within S) :
    Marks S (declRound requiredness decls : ParserM tokens (Bool × List EvidenceDecl))
      fun next => ∀ d ∈ next.2, d.Within S := by
  refine (marksEvidenceDecl marked merged).attempt.bind fun read found => ?_
  cases read with
  | none => exact (marksRecover marked).bind fun _ _ => marksPure before
  | some decl =>
    refine marksPure fun d mem => ?_
    rcases List.mem_append.mp mem with mem | mem
    · exact before d mem
    · cases List.mem_singleton.mp mem
      exact found decl rfl

theorem marksEvidenceSection : Marks S (parseEvidenceSection : ParserM tokens (List EvidenceDecl))
    fun decls => ∀ d ∈ decls, d.Within S := by
  rw [evidenceLoop]
  refine (marksExpect marked).bind fun _ _ => (marksExpect marked).bind fun _ _ => ?_
  have rounds : Marks S (iterate evidenceRound (loopFuel tokens) [] : ParserM tokens (List EvidenceDecl))
      fun decls => ∀ d ∈ decls, d.Within S := by
    refine .iterate (fun decls : List EvidenceDecl => ∀ d ∈ decls, d.Within S) (fun decls before => .peek fun kind => ?_) (by simp)
    split
    · exact marksPure before
    · exact marksPure before
    · exact marksDeclRound marked merged before
    · exact marksDeclRound marked merged before
    · exact marksSkip marked before
  exact rounds.bind fun decls each => (marksExpect marked).bind fun _ _ => marksPure each

theorem marksBoolExpr {depth : Nat} : Marks S (parseBoolExpr depth : ParserM tokens BoolExpr) fun e => e.Within S := by
  induction depth with
  | zero => exact marksOutOfFuel
  | succ depth ih =>
    have operands (isAnd : Bool) (start : Span) (first : S start) : Marks S (do
        let _ ← ParserM.advance
        let _ ← expect .lParen "boolean expression"
        let items ← commaList (parseBoolExpr depth) .rParen
        let close ← expect .rParen "boolean expression"
        let span := Span.merge start close.span
        requireTwo isAnd span items
        pure (if isAnd then BoolExpr.and items span else BoolExpr.or items span) : ParserM tokens BoolExpr)
        fun e => e.Within S := by
      refine .advance marked fun _ _ => (marksExpect marked).bind fun _ _ => ?_
      refine (marksCommaList marked ih).bind fun items each => (marksExpect marked).bind fun close last => ?_
      have own := merged _ _ first last
      have two : Marks S (requireTwo isAnd (start.merge close.span) items : ParserM tokens Unit) fun _ => True := by
        unfold requireTwo
        split
        · exact marksPush own
        · exact marksPure trivial
      refine two.bind fun _ _ => marksPure ?_
      split
      · exact .and own each
      · exact .or own each
    refine .peek fun kind => ?_
    split
    · exact .peekSpan marked fun start first => operands true start first
    · exact .peekSpan marked fun start first => operands false start first
    · refine .peekSpan marked fun start first => .advance marked fun _ _ => (marksExpect marked).bind fun _ _ => ?_
      refine ih.attempt.bind fun inner found => (marksExpect marked).bind fun close last => ?_
      cases inner with
      | some inner => exact marksPure (.not (merged _ _ first last) (found inner rfl))
      | none => exact marksFail
    · exact (marksIdent marked).bind fun name here => marksPure (.evidenceRef here)
    · exact marksReport marked

theorem marksSequenceSection : Marks S (parseSequenceSection : ParserM tokens SequenceConstraint)
    fun s => s.Within S := by
  refine .peekSpan marked fun start first => (marksExpect marked).bind fun _ _ => (marksExpect marked).bind fun _ _ => ?_
  refine (marksExpect marked).bind fun _ _ => (marksCommaListUnless marked (marksIdent marked)).bind fun steps each => ?_
  refine (marksExpect marked).bind fun close last => .peek fun kind => ?_
  have own := merged _ _ first last
  split
  · refine .advance marked fun _ _ => (marksExpect marked).bind fun _ _ => (marksInt marked).bind fun n here => ?_
    exact marksPure ⟨each,by simpa using here,merged _ _ own here⟩
  · exact marksPure ⟨each,by simp,own⟩

theorem marksSameCallSection : Marks S (parseSameCallSection : ParserM tokens SameCallConstraint)
    fun s => s.Within S := by
  refine .peekSpan marked fun start first => (marksExpect marked).bind fun _ _ => (marksExpect marked).bind fun _ _ => ?_
  refine (marksExpect marked).bind fun _ _ => (marksCommaListUnless marked (marksIdent marked)).bind fun members each => ?_
  exact (marksExpect marked).bind fun close last => marksPure ⟨each,merged _ _ first last⟩

theorem marksConstraintSection : Marks S (parseConstraintSection : ParserM tokens BoolExpr) fun e => e.Within S :=
  .advance marked fun _ _ => (marksExpect marked).bind fun _ _ => marksBoolExpr marked merged

omit marked merged

structure Sections.Within (S : Span → Prop) (s : Sections) : Prop where
  metadata : ∀ e ∈ s.metadata, e.Within S
  evidence : ∀ d ∈ s.evidence, d.Within S
  constraint : ∀ e ∈ s.constraint, e.Within S
  sequence : ∀ c ∈ s.sequence, c.Within S
  sameCall : ∀ c ∈ s.sameCall, c.Within S

theorem marksStoreSection {m : ParserM tokens α} {held : α → Prop} {store : α → Sections} {s : Sections}
    (marks : Marks S m held) (before : s.Within S) (stored : ∀ a, held a → (store a).Within S) :
    Marks S (storeSection s m store) fun next => next.2.Within S := by
  refine marks.attempt.bind fun read found => ?_
  cases read with
  | some a => exact marksPure (stored a (found a rfl))
  | none => exact marksPure before

include marked merged

theorem marksSection {s : Sections} (before : s.Within S) :
    Marks S (parseSection s : ParserM tokens (Bool × Sections)) fun next => next.2.Within S := by
  refine .peek fun kind => ?_
  split
  · exact marksPure before
  · exact marksPure before
  · exact marksStoreSection (marksEvidenceSection marked merged) before fun _ each => { before with evidence := each }
  · exact marksStoreSection (marksConstraintSection marked merged) before
      fun _ within => { before with constraint := by simpa using within }
  · exact marksStoreSection (marksSequenceSection marked merged) before
      fun _ within => { before with sequence := by simpa using within }
  · exact marksStoreSection (marksSameCallSection marked merged) before
      fun _ within => { before with sameCall := by simpa using within }
  · refine marksStoreSection (marksMetadataEntry marked merged) before fun entry within => ?_
    refine { before with metadata := fun e mem => ?_ }
    rcases List.mem_append.mp mem with mem | mem
    · exact before.metadata e mem
    · cases List.mem_singleton.mp mem
      exact within
  · exact marksSkip marked before

theorem marksPattern : Marks S (parsePattern : ParserM tokens PatternAst) fun ast => ast.Within S := by
  refine .peekSpan marked fun start first => (marksExpect marked).bind fun _ _ => (marksIdent marked).bind fun id named => ?_
  refine (marksExpect marked).bind fun _ _ => (marksInt marked).bind fun version numbered => ?_
  refine (marksExpect marked).bind fun _ _ => ?_
  have none' : Sections.Within S ⟨[],[],none,none,none⟩ := ⟨by simp,by simp,by simp,by simp,by simp⟩
  have rounds : Marks S (iterate parseSection (loopFuel tokens) ⟨[],[],none,none,none⟩) (Sections.Within S) :=
    .iterate _ (fun _ before => marksSection marked merged before) none'
  refine rounds.bind fun s within => (marksExpect marked).attempt.bind fun closing found => ?_
  have ended : Marks S (spanOrPeek closing : ParserM tokens Span) S := by
    cases closing with
    | some t => exact marksPure (found t rfl)
    | none => exact .weaken (.peekSpan marked fun span here => marksPure here) fun _ here => here
  refine ended.bind fun last here => marksPure ?_
  exact ⟨named,numbered,within.metadata,within.evidence,within.constraint,within.sequence,within.sameCall,
    merged _ _ first here⟩

end

variable {u : UnicodeClasses} {source : String} {S : Span → Prop}

def Sound (S : Span → Prop) : Except (Failure Diagnostics) PatternAst → Prop
  | .ok ast => ast.Within S
  | .error (.error diags) => diags.hasErrors = true ∧ diags.At S
  | .error (.panicked _) => False

theorem parseTokensSound (ended : Ended tokens) (marked : ∀ t ∈ tokens, S t.span)
    (merged : ∀ s t, S s → S t → S (s.merge t)) : ∃ result, parseTokens tokens = some result ∧ Sound S result := by
  have nonempty : 0 < tokens.length := by
    rw [List.length_pos_iff]
    rintro rfl
    simp [Ended] at ended
  obtain ⟨value,q,grows,run,loud⟩ := settlesPattern ended (p := ⟨⟨0,nonempty⟩,[]⟩)
  obtain ⟨reports,within⟩ := marksPattern marked merged _ _ atNone run
  have reported (errors : q.diagnostics.hasErrors = true) : Sound S (.error (.error (parseTokens.reported q.diagnostics))) := by
    have some : q.diagnostics.isEmpty = false := by
      rw [Bool.eq_false_iff]
      intro none
      rw [List.isEmpty_iff.mp none] at errors
      contradiction
    rw [parseTokens.reported,some]
    exact ⟨errors,reports⟩
  rw [parseTokens,dif_pos nonempty]
  simp only [run,Option.map_some,Option.some.injEq,exists_eq_left']
  cases value with
  | none => exact reported (Bool.not_eq_false _ ▸ loud rfl)
  | some ast =>
    cases errors : q.diagnostics.hasErrors with
    | true => exact reported errors
    | false => exact within ast rfl

theorem parseSound (small : utf8Length source.toList < UInt32.size) :
    ∃ result, parse u source = some result ∧ Sound (Inside source) result := by
  obtain ⟨lexed,read,severe⟩ : ∃ result, tokenize u source = some result ∧ ∀ d, result = .error d → d.severity = .error :=
    Lexer.runReports (Nat.lt_succ_self _)
  rw [parse,read]
  cases lexed with
  | error d =>
    refine ⟨_,rfl,?_,atOne (Lexer.tokenizeInside small read)⟩
    simp [Diagnostics.hasErrors,severe d rfl]
  | ok tokens =>
    obtain ⟨result,same,sound⟩ := parseTokensSound (tokenizeEnded read) (Lexer.tokensInside small read)
      fun _ _ => Inside.merge
    exact ⟨result,same,sound⟩

section
variable {ast : PatternAst}

theorem resolveQuiet {name : String} : Quiet (resolveName ast name) := quietUnwrap.bind fun _ => quietOk

theorem expressionQuiet {e : BoolExpr} : Quiet (compileBoolExpr ast e) := by
  have operands {items : List BoolExpr} (each : ∀ e ∈ items, Quiet (compileBoolExpr ast e)) :
      Quiet (compileBoolExprs ast items) := by
    rw [compileBoolExprsEq]
    intro d failed
    obtain ⟨e,mem,same⟩ := mapMErrorMem failed
    exact each e mem d same
  induction e with
  | evidenceRef name => exact resolveQuiet.bind fun _ => quietOk
  | and items span ih => exact (operands ih).bind fun _ => quietOk
  | or items span ih => exact (operands ih).bind fun _ => quietOk
  | not inner span ih => exact ih.bind fun _ => quietOk

theorem constraintQuiet : Quiet (compileConstraint ast) := by
  unfold compileConstraint
  split
  · refine (quietMapM fun d => resolveQuiet.bind fun _ => quietOk).bind fun refs => ?_
    split
    · exact quietOk
    · exact quietOk
  · exact expressionQuiet

theorem compileReports {diags : Diagnostics} (failed : compile ast = .error (.error diags)) :
    diags = validate ast ∧ diags.hasErrors = true := by
  simp only [compile] at failed
  split at failed
  · rename_i errors
    cases failed
    exact ⟨rfl,errors⟩
  · have sequence (s : SequenceConstraint) : Quiet (compileSequence ast s) :=
      (quietMapM fun _ => resolveQuiet).bind fun _ => quietOk
    have sameCall (s : SameCallConstraint) : Quiet (compileSameCall ast s) :=
      (quietMapM fun _ => resolveQuiet).bind fun _ => quietOk
    refine absurd failed (Quiet.bind constraintQuiet (fun _ => ?_) diags)
    refine (quietOptionMapM sequence).bind fun _ => (quietOptionMapM sameCall).bind fun _ => ?_
    exact quietUnwrap.bind fun _ => quietUnwrap.bind fun _ => quietUnwrap.bind fun _ => quietOk

end

def DslError.diagnostics : DslError → Diagnostics
  | .parse diags | .validation diags => diags

/- Compiling a file of less than `2^32 - 1` bytes comes to an end. What it reports has an
error in it, and each report lies at a text of the file: the line and the column that are
printed for it are those of the text. -/
theorem diagnosticsLocated (small : utf8Length source.toList + 1 < UInt32.size) :
    ∃ result, compileStr u source = some result ∧ ∀ e, result = .error (.error e) →
      e.diagnostics.hasErrors = true ∧
      ∀ d ∈ e.diagnostics, ∃ before text after, Pointed source d.location before text after := by
  obtain ⟨parsed,read,sound⟩ := @parseSound u source (by omega)
  rw [compileStr,read,Option.map_some]
  refine ⟨_,rfl,fun e failed => ?_⟩
  have found {diags : Diagnostics} (reports : diags.At (Inside source)) :
      ∀ d ∈ diags, ∃ before text after, Pointed source d.location before text after :=
    fun d mem => (reports d mem).pointed small
  rcases parsed with (diags | message) | ast
  · cases failed
    exact ⟨sound.1,found sound.2⟩
  · exact sound.elim
  · obtain ⟨diags,same⟩ : ∃ diags, compile ast = .error (.error diags) ∧ e = .validation diags := by
      simp only [mapFailure,bind,Except.bind] at failed
      rcases outcome : compile ast with (diags | message) | p
      all_goals
        rw [outcome] at failed
        cases failed
      exact ⟨diags,rfl,rfl⟩
    obtain ⟨outcome,rfl⟩ := same
    obtain ⟨rfl,errors⟩ := compileReports outcome
    exact ⟨errors,found (validateAt sound)⟩

set_option maxRecDepth 4000

def misspelledSource : String := "pattern p version 0 \x7b
  family: F severity: Low evidence \x7b required a: cal(kind: External) \x7d
  sequence: [a, b] \x7d"

def reportedPlaces (source : String) : Except (Failure DslError) CompiledPattern → List (UInt32 × UInt32)
  | .error (.error e) => e.diagnostics.map fun d => d.location.lineCol source
  | _ => []

theorem diagnosticsLocatedMisspelled : (∃ result, compileStr .ascii misspelledSource = some result ∧
    ∀ e, result = .error (.error e) → e.diagnostics.hasErrors = true ∧
      ∀ d ∈ e.diagnostics, ∃ before text after, Pointed misspelledSource d.location before text after) ∧
    (compileStr .ascii misspelledSource).map (reportedPlaces misspelledSource) =
      some [(1,19),(2,50),(3,17)] := by
  have small : utf8Length misspelledSource.toList + 1 < UInt32.size := by
    rw [show misspelledSource = String.ofList _ from rfl,String.toList_ofList]
    decide +kernel
  refine ⟨diagnosticsLocated small,?_⟩
  rw [show misspelledSource = String.ofList _ from rfl,compileStr,parseList]
  decide +kernel

end RootCause.Dsl
