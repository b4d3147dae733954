import RootCause.Dsl.Numbers

/-! Lexing without positions: which token kinds a text spells. The trace of the lexer is
a relation between the characters and the kinds, and a token is read from the characters
in front of it alone. -/
namespace RootCause.Dsl
namespace Lexer
variable {u : UnicodeClasses}

def quotedBody : List Char → Option (List Char × List Char)
  | [] => none
  | c :: rest =>
    if c = '\n' then none
    else if c = '"' then some ([],rest)
    else if c = '\\' then
      match rest with
      | [] => none
      | e :: rest => (escape e).bind fun decoded => (quotedBody rest).map fun r => (decoded :: r.1,r.2)
    else (quotedBody rest).map fun r => (c :: r.1,r.2)

@[simp] theorem quotedNil : quotedBody [] = none := rfl
@[simp] theorem quotedNewline (rest : List Char) : quotedBody ('\n' :: rest) = none := by
  simp [quotedBody.eq_def]
@[simp] theorem quotedQuote (rest : List Char) : quotedBody ('"' :: rest) = some ([],rest) := by
  simp [quotedBody.eq_def]
@[simp] theorem quotedBackslash : quotedBody ['\\'] = none := rfl
@[simp] theorem quotedEscape (e : Char) (rest : List Char) : quotedBody ('\\' :: e :: rest) =
    (escape e).bind fun decoded => (quotedBody rest).map fun r => (decoded :: r.1,r.2) := rfl

theorem quotedChar {c : Char} (newline : c ≠ '\n') (quote : c ≠ '"') (backslash : c ≠ '\\')
    (rest : List Char) : quotedBody (c :: rest) = (quotedBody rest).map fun r => (c :: r.1,r.2) := by
  rw [quotedBody.eq_def]
  simp only [newline,quote,backslash,if_false]

def kindAndRest (read : Except Diagnostic (TokenKind × Lexer)) : Option (TokenKind × List Char) :=
  read.toOption.map fun r => (r.1,r.2.rest)

theorem stringBodyQuoted {start pos : Nat} {tokens : List Token} {rest value : List Char} :
    kindAndRest (stringBody start tokens rest pos value) =
      (quotedBody rest).map fun r => (.stringLit (String.ofList (value ++ r.1)),r.2) := by
  fun_induction stringBody start tokens rest pos value with
  | case1 => rfl
  | case2 => simp [kindAndRest,Except.toOption]
  | case3 => simp [kindAndRest,Except.toOption]
  | case4 => rfl
  | case5 pos value e rest decoded escaped _ _ ih => simp [escaped,ih,Function.comp_def]
  | case6 pos value e rest escaped => simp [escaped,kindAndRest,Except.toOption]
  | case7 c rest pos value newline quote backslash ih =>
    simp [quotedChar newline quote backslash,ih,Function.comp_def]

theorem stringBodyTokens {start pos : Nat} {tokens : List Token} {rest value : List Char} {kind after}
    (read : stringBody start tokens rest pos value = .ok (kind,after)) : after.tokens = tokens := by
  fun_induction stringBody start tokens rest pos value with
  | case3 =>
    cases read
    rfl
  | case5 pos value e rest decoded escaped _ _ ih => exact ih read
  | case7 c rest pos value newline quote backslash ih => exact ih read
  | _ => contradiction

theorem quotedShorter {cs value after : List Char} (read : quotedBody cs = some (value,after)) :
    after.length < cs.length := by
  fun_induction quotedBody cs generalizing value with
  | case3 =>
    cases read
    simp
  | case5 e rest _ _ ih =>
    obtain ⟨_,_,read⟩ := Option.bind_eq_some_iff.mp read
    obtain ⟨r,inner,same⟩ := Option.map_eq_some_iff.mp read
    cases same
    have shorter := ih inner
    simp only [List.length_cons]
    omega
  | case6 c rest _ _ _ ih =>
    obtain ⟨r,inner,same⟩ := Option.map_eq_some_iff.mp read
    cases same
    have shorter := ih inner
    simp only [List.length_cons]
    omega
  | _ => contradiction

def scanNumber (cs : List Char) : Option (TokenKind × List Char) :=
  let negative := cs.head? = some '-'
  let signed := if negative then cs.drop 1 else cs
  let digits := signed.takeWhile Char.isDigit
  if digits.isEmpty then none
  else (parseI64 negative digits).map fun value => (.intLit value,signed.dropWhile Char.isDigit)

def continues (u : UnicodeClasses) (c : Char) : Bool := u.isAlphanumeric c || c = '_'

theorem namedContinues {c : Char} (named : u.isAlphabetic c = true ∨ c = '_') : continues u c = true := by
  rcases named with letter | underscore
  · simp [continues,UnicodeClasses.isAlphanumeric,letter]
  · simp [continues,underscore]

def scan (u : UnicodeClasses) (ch : Char) (cs : List Char) : Option (TokenKind × List Char) :=
  if ch = '\x7b' then some (.lBrace,cs.drop 1)
  else if ch = '\x7d' then some (.rBrace,cs.drop 1)
  else if ch = '[' then some (.lBracket,cs.drop 1)
  else if ch = ']' then some (.rBracket,cs.drop 1)
  else if ch = '(' then some (.lParen,cs.drop 1)
  else if ch = ')' then some (.rParen,cs.drop 1)
  else if ch = ':' then some (.colon,cs.drop 1)
  else if ch = ',' then some (.comma,cs.drop 1)
  else if ch = '"' then (quotedBody (cs.drop 1)).map fun r => (.stringLit (String.ofList r.1),r.2)
  else if ch = '-' ∨ ch.isDigit then scanNumber cs
  else if u.isAlphabetic ch ∨ ch = '_' then
    some (keyword (String.ofList (cs.takeWhile (continues u))),cs.dropWhile (continues u))
  else none

theorem numberScan {l : Lexer} : kindAndRest l.numberLiteral = scanNumber l.rest := by
  have signed : (if l.rest.head? = some '-' then l.single else l).rest =
      if l.rest.head? = some '-' then l.rest.drop 1 else l.rest := by
    split <;> rfl
  unfold numberLiteral scanNumber
  simp only [← signed]
  generalize (if l.rest.head? = some '-' then l.single else l) = s
  split
  · rfl
  · cases parsed : parseI64 (decide (l.rest.head? = some '-')) (s.rest.takeWhile Char.isDigit) <;> rfl

section
variable {γ : Type} (value : Lexer → γ) (consumes : ∀ (l : Lexer) taken rest,
  taken ++ rest = l.rest → value (l.consume taken rest) = value l)
include consumes

theorem singleKeeps (l : Lexer) : value l.single = value l := consumes l _ _ (List.take_append_drop 1 _)

theorem numberKeeps {l after : Lexer} {kind} (read : l.numberLiteral = .ok (kind,after)) :
    value after = value l := by
  have signed : value (if l.rest.head? = some '-' then l.single else l) = value l := by
    split
    · exact singleKeeps value consumes l
    · rfl
  unfold numberLiteral at read
  simp only at read
  generalize (if l.rest.head? = some '-' then l.single else l) = s at read signed
  split at read
  · contradiction
  · split at read
    · cases read
      rw [consumes s _ _ List.takeWhile_append_dropWhile,signed]
    · contradiction

theorem lexemeKeeps {l after : Lexer} {ch kind}
    (strings : ∀ {kind after}, l.stringLiteral = .ok (kind,after) → value after = value l)
    (read : l.lexeme u ch = .ok (kind,after)) : value after = value l := by
  let keeps (read : Except Diagnostic (TokenKind × Lexer)) : Prop :=
    ∀ kind after, read = .ok (kind,after) → value after = value l
  have single (kind : TokenKind) : keeps (.ok (kind,l.single)) := by
    intro _ _ same
    cases same
    exact singleKeeps value consumes l
  have whole : keeps (l.lexeme u ch) := by
    unfold lexeme
    iterate 8 refine iteInduction (fun _ => single _) fun _ => ?_
    refine iteInduction (fun _ _ _ read => strings read) fun _ => ?_
    refine iteInduction (fun _ _ _ read => numberKeeps value consumes read) fun _ => ?_
    refine iteInduction (fun _ _ _ same => ?_) fun _ _ _ failed => ?_
    · cases same
      exact consumes l _ _ List.takeWhile_append_dropWhile
    · contradiction
  exact whole kind after read

end

theorem lexemeScan {l : Lexer} {ch : Char} : kindAndRest (l.lexeme u ch) = scan u ch l.rest := by
  have text : kindAndRest l.stringLiteral =
      (quotedBody (l.rest.drop 1)).map fun r => (.stringLit (String.ofList r.1),r.2) :=
    stringBodyQuoted
  simp only [lexeme,scan,apply_ite kindAndRest,text,numberScan]
  rfl

theorem lexemeTokens {l after : Lexer} {ch kind} (read : l.lexeme u ch = .ok (kind,after)) :
    after.tokens = l.tokens := lexemeKeeps Lexer.tokens (fun _ _ _ _ => rfl) stringBodyTokens read

theorem numberRead {cs after : List Char} {kind} (read : scanNumber cs = some (kind,after)) :
    (∃ value, kind = .intLit value) ∧ after <:+ cs ∧ after.length < cs.length := by
  have signed : (if cs.head? = some '-' then cs.drop 1 else cs) <:+ cs := by
    split
    · exact List.drop_suffix 1 cs
    · exact List.suffix_rfl
  unfold scanNumber at read
  simp only at read
  generalize (if cs.head? = some '-' then cs.drop 1 else cs) = s at read signed
  split at read
  · contradiction
  · rename_i some
    obtain ⟨value,_,same⟩ := Option.map_eq_some_iff.mp read
    cases same
    have parts := congrArg List.length (List.takeWhile_append_dropWhile (p := Char.isDigit) (l := s))
    have digits := List.length_pos_iff.mpr (List.isEmpty_eq_false_iff.mp (Bool.eq_false_iff.mpr some))
    have shorter := signed.length_le
    rw [List.length_append] at parts
    exact ⟨⟨value,rfl⟩,(List.dropWhile_suffix _).trans signed,by omega⟩

theorem scanShorter {ch : Char} {rest after : List Char} {kind}
    (read : scan u ch (ch :: rest) = some (kind,after)) : after.length < (ch :: rest).length := by
  let shorter (read : Option (TokenKind × List Char)) : Prop :=
    ∀ kind after, read = some (kind,after) → after.length < (ch :: rest).length
  have single (kind : TokenKind) : shorter (some (kind,(ch :: rest).drop 1)) := by
    intro _ _ same
    cases same
    simp
  have whole : shorter (scan u ch (ch :: rest)) := by
    unfold scan
    iterate 8 refine iteInduction (fun _ => single _) fun _ => ?_
    refine iteInduction (fun _ _ _ read => ?_) fun _ => ?_
    · obtain ⟨r,inner,same⟩ := Option.map_eq_some_iff.mp read
      cases same
      have less : r.2.length < rest.length := quotedShorter inner
      rw [List.length_cons]
      omega
    refine iteInduction (fun _ _ _ read => (numberRead read).2.2) fun _ => ?_
    refine iteInduction (fun named _ _ same => ?_) fun _ _ _ failed => ?_
    · cases same
      rw [List.dropWhile_cons_of_pos (namedContinues named),List.length_cons]
      have less := (List.dropWhile_sublist (l := rest) (continues u)).length_le
      omega
    · contradiction
  exact whole kind after read

def trimmed (cs : List Char) : List Char := cs.drop (triviaLength false cs)

def first (u : UnicodeClasses) (cs : List Char) : Option (TokenKind × List Char) :=
  match trimmed cs with
  | [] => none
  | ch :: rest => scan u ch (ch :: rest)

inductive Lexes (u : UnicodeClasses) : List Char → List TokenKind → Prop where
  | done {cs} (trivia : trimmed cs = []) : Lexes u cs [.eof]
  | token {cs kind after kinds} (read : first u cs = some (kind,after)) (later : Lexes u after kinds) :
      Lexes u cs (kind :: kinds)

theorem runLexes {fuel : Nat} {l : Lexer} {tokens : List Token} (lexed : run u fuel l = some (.ok tokens)) :
    ∃ kinds, Lexes u l.rest kinds ∧ tokens.map Token.kind = l.tokens.map Token.kind ++ kinds := by
  induction fuel generalizing l with
  | zero => contradiction
  | succ fuel ih =>
    simp only [run] at lexed
    split at lexed
    · rename_i empty
      cases lexed
      exact ⟨[.eof],.done empty,by simp [skipWhitespaceAndComments,consume]⟩
    · rename_i ch rest here
      split at lexed
      · simp at lexed
      · rename_i kind after read
        obtain ⟨kinds,lexes,spelled⟩ := ih lexed
        have scanned : scan u ch (ch :: rest) = some (kind,after.rest) := by
          rw [← here,← lexemeScan,read]
          rfl
        have step : first u l.rest = some (kind,after.rest) := by
          rw [first,show trimmed l.rest = ch :: rest from here]
          exact scanned
        refine ⟨kind :: kinds,.token step lexes,?_⟩
        rw [spelled,lexemeTokens read]
        simp [skipWhitespaceAndComments,consume]

theorem firstShorter {cs after : List Char} {kind} (read : first u cs = some (kind,after)) :
    after.length < cs.length := by
  have less : (trimmed cs).length ≤ cs.length := by simp [trimmed]
  unfold first at read
  split at read
  · contradiction
  · rename_i ch rest here
    have shorter := scanShorter read
    rw [← here] at shorter
    omega

theorem lexesRun {cs : List Char} {kinds : List TokenKind} (lexes : Lexes u cs kinds) (fuel : Nat) (l : Lexer)
    (here : l.rest = cs) (enough : cs.length < fuel) : ∃ tokens, run u fuel l = some (.ok tokens) ∧
      tokens.map Token.kind = l.tokens.map Token.kind ++ kinds := by
  induction lexes generalizing fuel l with
  | done trivia =>
    cases fuel with
    | zero => omega
    | succ fuel =>
      have empty : l.skipWhitespaceAndComments.rest = [] := by rw [← trivia,← here]; rfl
      refine ⟨l.tokens ++ [⟨.eof,_⟩],by simp only [run,empty]; rfl,by simp⟩
  | @token cs kind after kinds read later ih =>
    cases fuel with
    | zero => omega
    | succ fuel =>
      have shorter := firstShorter read
      unfold first at read
      split at read
      · contradiction
      · rename_i ch rest shape
        have shape : l.skipWhitespaceAndComments.rest = ch :: rest := by rw [← shape,← here]; rfl
        rw [← shape,← lexemeScan] at read
        obtain ⟨⟨kind',l'⟩,ok,same⟩ := Option.map_eq_some_iff.mp read
        cases same
        rw [Library.toOptionOk] at ok
        obtain ⟨tokens,ran,spelled⟩ := ih fuel { l' with
          tokens := l'.tokens ++ [⟨kind',.ofOffsets l.skipWhitespaceAndComments.pos l'.pos⟩] } rfl (by omega)
        refine ⟨tokens,?_,?_⟩
        · simp only [run,shape,ok]
          exact ran
        · rw [spelled,List.map_append,lexemeTokens ok]
          simp [skipWhitespaceAndComments,consume]

theorem tokenizeLexes {source : String} {kinds : List TokenKind} :
    (∃ tokens, tokenize u source = some (.ok tokens) ∧ tokens.map Token.kind = kinds) ↔
      Lexes u source.toList kinds := by
  constructor
  · intro given
    obtain ⟨tokens,lexed,rfl⟩ := given
    obtain ⟨kinds,lexes,spelled⟩ := runLexes lexed
    rw [spelled]
    exact lexes
  · intro lexes
    obtain ⟨tokens,ran,spelled⟩ := lexesRun lexes (source.toList.length + 1) (new source) rfl
      (Nat.lt_succ_self _)
    exact ⟨tokens,ran,spelled⟩

theorem lexesToken {cs after : List Char} {kind : TokenKind} {kinds : List TokenKind}
    (read : first u cs = some (kind,after)) :
    Lexes u cs kinds ↔ ∃ later, kinds = kind :: later ∧ Lexes u after later := by
  constructor
  · intro lexes
    cases lexes with
    | done trivia => simp [first,trivia] at read
    | token other later =>
      rw [read] at other
      cases other
      exact ⟨_,rfl,later⟩
  · intro given
    obtain ⟨later,rfl,lexes⟩ := given
    exact .token read lexes

theorem lexesTrimmed {cs ds : List Char} {kinds : List TokenKind} (same : trimmed cs = trimmed ds)
    (lexes : Lexes u cs kinds) : Lexes u ds kinds := by
  cases lexes with
  | done trivia => exact .done (same ▸ trivia)
  | token read later =>
    refine .token ?_ later
    rw [← read,first,first,same]

end Lexer
end RootCause.Dsl
