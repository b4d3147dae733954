import RootCause.Dsl.Layout

/-! The documented tokens against those the lexer reads. Names are documented over ASCII,
and the lexer takes letters and digits of every script; there they part. -/
namespace RootCause.Dsl
open Library

namespace Lexer
variable {u : UnicodeClasses} {cs : List Char} {kinds : List TokenKind}

theorem alphaAscii {c : Char} (letter : c.isAlpha = true) : c.toNat < 128 := by
  have bounds : c.isAlpha = (decide (65 ≤ c.toNat ∧ c.toNat ≤ 90) ||
    (decide (97 ≤ c.toNat) && decide (c.toNat ≤ 122))) := rfl
  rw [bounds] at letter
  simp at letter
  omega

theorem goesOnAscii {c : Char} (goesOn : documentedLetters.goesOn c = true) : c.toNat < 128 := by
  have form : (c.isAlpha = true ∨ c.isDigit = true) ∨ c = '_' := by simpa [documentedLetters] using goesOn
  rcases form with (letter | digit) | rfl
  · exact alphaAscii letter
  · exact (digitAscii digit).1
  · decide

theorem asciiGoesOn {c : Char} (ascii : c.toNat < 128) : continues u c = documentedLetters.goesOn c := by
  simp [continues,UnicodeClasses.isAlphanumeric,documentedLetters,u.asciiAlphabetic c ascii,
    u.asciiNumeric c ascii]

theorem asciiStarts {c : Char} (ascii : c.toNat < 128) : u.letters.starts c = documentedLetters.starts c := by
  have black : documentedLetters.starts c = true → isWhitespace c = false := by
    intro start
    have named : c.isAlpha = true ∨ c = '_' := by simpa [documentedLetters] using start
    have all : ∀ n < 128, (Char.ofNat n).isAlpha = true ∨ Char.ofNat n = '_' →
        isWhitespace (Char.ofNat n) = false := by decide
    have checked := all c.toNat ascii
    rw [Char.ofNat_toNat] at checked
    exact checked named
  simp only [UnicodeClasses.letters,u.asciiAlphabetic c ascii]
  cases started : documentedLetters.starts c with
  | true => rw [black started]; simpa [documentedLetters] using started
  | false => rw [show (c.isAlpha || decide (c = '_')) = false from started]; rfl

theorem startsAscii {c : Char} (start : documentedLetters.starts c = true) : c.toNat < 128 := by
  refine goesOnAscii ?_
  have named : c.isAlpha = true ∨ c = '_' := by simpa [documentedLetters] using start
  rcases named with letter | underscore
  · simp [documentedLetters,letter]
  · simp [documentedLetters,underscore]

theorem textWidened {form : TokenClass} {text : List Char} {kind : TokenKind}
    (token : TokenText documentedLetters form text kind) : TokenText u.letters form text kind := by
  cases token with
  | mark mem => exact .mark mem
  | name start later =>
    exact .name ((asciiStarts (startsAscii start)).trans start) fun d mem =>
      (asciiGoesOn (goesOnAscii (later d mem))).trans (later d mem)
  | number some digit fits => exact .number some digit fits
  | quoted quoted => exact .quoted quoted

theorem textAscii {form : TokenClass} {text : List Char} {kind : TokenKind}
    (token : TokenText documentedLetters form text kind) : ∀ c ∈ text.head?, c.toNat < 128 := by
  intro c head
  cases token with
  | mark mem =>
    cases head
    have all : punctuation.all (fun m => m.1.toNat < 128) = true := rfl
    exact of_decide_eq_true (List.all_eq_true.mp all _ mem)
  | name start _ =>
    cases head
    exact startsAscii start
  | @number negative digits value some digit =>
    obtain ⟨d,ds,rfl⟩ := List.exists_cons_of_ne_nil some
    cases negative with
    | true =>
      cases head
      decide
    | false =>
      cases head
      exact (digitAscii (digit c List.mem_cons_self)).1
  | quoted _ =>
    cases head
    decide

theorem sequenceStart (sequence : Sequence documentedLetters cs kinds) :
    ∀ c ∈ cs.head?, isWhitespace c = true ∨ c.toNat < 128 := by
  have blankHead {last : Bool} {gap : List Char} (blank : Blank last gap) :
      ∀ c ∈ gap.head?, isWhitespace c = true ∨ c.toNat < 128 := by
    intro c head
    obtain ⟨rest,rfl⟩ := List.head?_eq_some_iff.mp head
    rcases blankStart blank with white | rfl
    · exact .inl white
    · exact .inr (by decide)
  intro c head
  cases sequence with
  | done blank => exact blankHead blank c head
  | @token gap form text rest kind kinds blank token _ _ =>
    obtain ⟨d,tail,shape,_⟩ := textStart token fun c start => by
      have ascii := startsAscii start
      exact wideStart .ascii c ((asciiStarts ascii).trans start)
    cases gap with
    | nil =>
      rw [List.nil_append,shape,List.cons_append] at head
      cases head
      exact .inr (textAscii token _ (by rw [shape]; rfl))
    | cons b gap =>
      cases head
      exact blankHead blank _ rfl

theorem sequenceWidened (apart : ∀ c, isWhitespace c = true → continues u c = false)
    (sequence : Sequence documentedLetters cs kinds) : Sequence u.letters cs kinds := by
  induction sequence with
  | done blank => exact .done blank
  | @token gap form text rest kind kinds blank token ends later ih =>
    refine .token blank (textWidened token) ?_ ih
    cases form with
    | name =>
      intro c head
      rcases sequenceStart later c head with white | ascii
      · exact apart c white
      · exact (asciiGoesOn ascii).trans (ends c head)
    | number => exact ends
    | mark => exact ends
    | quoted => exact ends

theorem keywordAscii {text : String} : keyword text = .ident text ∨ ∀ c ∈ text.toList, c.toNat < 128 := by
  have literal {s : String} (ascii : s.toList.all (fun c => c.toNat < 128) = true) :
      ∀ c ∈ s.toList, c.toNat < 128 := fun c mem => of_decide_eq_true (List.all_eq_true.mp ascii c mem)
  unfold keyword
  split
  case h_15 => exact .inl rfl
  all_goals exact .inr (literal (by decide))

def AsciiNames (kinds : List TokenKind) : Prop := ∀ name, .ident name ∈ kinds → ∀ c ∈ name.toList, c.toNat < 128

theorem textNarrowed {form : TokenClass} {text : List Char} {kind : TokenKind}
    (ascii : ∀ name, kind = .ident name → ∀ c ∈ name.toList, c.toNat < 128)
    (token : TokenText u.letters form text kind) : TokenText documentedLetters form text kind := by
  cases token with
  | mark mem => exact .mark mem
  | @name c cs start later =>
    have narrow : ∀ d ∈ c :: cs, d.toNat < 128 := by
      rcases @keywordAscii (String.ofList (c :: cs)) with name | plain
      · simpa only [String.toList_ofList] using ascii _ name
      · simpa only [String.toList_ofList] using plain
    obtain ⟨first,others⟩ := List.forall_mem_cons.mp narrow
    exact .name ((asciiStarts first).symm.trans start) fun d mem =>
      (asciiGoesOn (others d mem)).symm.trans (later d mem)
  | number some digit fits => exact .number some digit fits
  | quoted quoted => exact .quoted quoted

theorem sequenceNarrowed (ascii : AsciiNames kinds) (sequence : Sequence u.letters cs kinds) :
    Sequence documentedLetters cs kinds := by
  induction sequence with
  | done blank => exact .done blank
  | @token gap form text rest kind kinds blank token ends later ih =>
    refine .token blank (textNarrowed (fun name same => ascii name (by simp [same])) token) ?_
      (ih fun name mem => ascii name (List.mem_cons_of_mem _ mem))
    cases form with
    | name =>
      intro c head
      by_contra goesOn
      have goesOn : documentedLetters.goesOn c = true := by simpa using goesOn
      have other := ends c head
      rw [show u.letters.goesOn c = continues u c from rfl,asciiGoesOn (goesOnAscii goesOn),goesOn] at other
      contradiction
    | number => exact ends
    | mark => exact ends
    | quoted => exact ends

theorem documentedNames (sequence : Sequence documentedLetters cs kinds) : AsciiNames kinds := by
  induction sequence with
  | done blank => simp [AsciiNames]
  | @token gap form text rest kind kinds blank token ends later ih =>
    intro name mem
    rcases List.mem_cons.mp mem with same | mem
    · cases token with
      | mark listed => simp [punctuation,← same] at listed
      | @name c cs start later =>
        rw [← keywordIdent same.symm,String.toList_ofList]
        exact List.forall_mem_cons.mpr ⟨startsAscii start,fun d mem => goesOnAscii (later d mem)⟩
      | number => contradiction
      | quoted => contradiction
    · exact ih name mem

theorem lexesUnique {first second : List TokenKind} (one : Lexes u cs first) (two : Lexes u cs second) :
    first = second := by
  induction one generalizing second with
  | done trivia =>
    cases two with
    | done _ => rfl
    | token read _ => simp [Lexer.first,trivia] at read
  | token read _ ih =>
    obtain ⟨later,rfl,rest⟩ := (lexesToken read).mp two
    rw [ih rest]

theorem sequenceUnique {first second : List TokenKind} (one : Sequence u.letters cs first)
    (two : Sequence u.letters cs second) : first = second := by
  have same := lexesUnique (lexesSequence.mpr ⟨first,rfl,one⟩) (lexesSequence.mpr ⟨second,rfl,two⟩)
  exact List.append_cancel_right same

theorem acceptsIff {source : String} : (∃ tokens, tokenize u source = some (.ok tokens)) ↔
    ∃ kinds, Sequence u.letters source.toList kinds := by
  constructor
  · intro given
    obtain ⟨tokens,lexed⟩ := given
    obtain ⟨inner,_,sequence⟩ := lexesSequence.mp (tokenizeLexes.mp ⟨tokens,lexed,rfl⟩)
    exact ⟨inner,sequence⟩
  · intro given
    obtain ⟨kinds,sequence⟩ := given
    obtain ⟨tokens,lexed,_⟩ := tokenizeLexes.mpr (lexesSequence.mpr ⟨kinds,rfl,sequence⟩)
    exact ⟨tokens,lexed⟩

theorem stringBodyError {start pos : Nat} {tokens : List Token} {rest value : List Char} {d : Diagnostic}
    (failed : stringBody start tokens rest pos value = .error d) : d.severity = .error := by
  fun_induction stringBody start tokens rest pos value with
  | case3 => contradiction
  | case5 pos value e rest decoded escaped _ _ ih => exact ih failed
  | case7 c rest pos value newline quote backslash ih => exact ih failed
  | _ =>
    cases failed
    rfl

theorem numberError {l : Lexer} {d : Diagnostic} (failed : l.numberLiteral = .error d) :
    d.severity = .error := by
  unfold numberLiteral at failed
  simp only at failed
  generalize (if l.rest.head? = some '-' then l.single else l) = signed at failed
  split at failed
  · cases failed
    rfl
  · split at failed
    · contradiction
    · cases failed
      rfl

theorem lexemeError {l : Lexer} {ch : Char} {d : Diagnostic} (failed : l.lexeme u ch = .error d) :
    d.severity = .error := by
  let reports (read : Except Diagnostic (TokenKind × Lexer)) : Prop :=
    ∀ d, read = .error d → d.severity = .error
  have read (r : TokenKind × Lexer) : reports (.ok r) := fun _ other => by contradiction
  have whole : reports (l.lexeme u ch) := by
    unfold lexeme
    iterate 8 refine iteInduction (fun _ => read _) fun _ => ?_
    refine iteInduction (fun _ _ => stringBodyError) fun _ => ?_
    refine iteInduction (fun _ _ => numberError) fun _ => ?_
    refine iteInduction (fun _ => read _) fun _ _ same => ?_
    cases same
    rfl
  exact whole d failed

theorem runReports {fuel : Nat} {l : Lexer} (enough : l.rest.length < fuel) :
    ∃ result, run u fuel l = some result ∧ ∀ d, result = .error d → d.severity = .error := by
  induction fuel generalizing l with
  | zero => omega
  | succ fuel ih =>
    have less : l.skipWhitespaceAndComments.rest.length ≤ l.rest.length := by
      simp [skipWhitespaceAndComments,consume]
    simp only [run]
    generalize l.skipWhitespaceAndComments = s at less
    split
    · exact ⟨_,rfl,fun d failed => by contradiction⟩
    · rename_i ch rest here
      split
      · rename_i d failed
        exact ⟨_,rfl,fun e same => by cases same; exact lexemeError failed⟩
      · rename_i kind after read
        have scanned : scan u ch (ch :: rest) = some (kind,after.rest) := by
          rw [← here,← lexemeScan,read]
          rfl
        have shorter := scanShorter scanned
        rw [here] at less
        exact ih (by simp only; omega)

/- The lexer accepts the source exactly if it is documented, and reports an error otherwise. -/
structure LexesDocumented (u : UnicodeClasses) (source : String) : Prop where
  accepts : (∃ tokens, tokenize u source = some (.ok tokens)) ↔
    ∃ kinds, Sequence documentedLetters source.toList kinds
  reports : (¬ ∃ kinds, Sequence documentedLetters source.toList kinds) →
    ∃ d, tokenize u source = some (.error d) ∧ d.severity = .error

def ForeignName (u : UnicodeClasses) (source : String) : Prop :=
  ∃ kinds, Sequence u.letters source.toList kinds ∧
    ∃ name, .ident name ∈ kinds ∧ ∃ c ∈ name.toList, 128 ≤ c.toNat

theorem lexesDocumented (apart : ∀ c, isWhitespace c = true → continues u c = false) (source : String) :
    LexesDocumented u source ↔ ¬ ForeignName u source := by
  constructor
  · intro exact' foreign
    obtain ⟨kinds,wide,name,mem,c,inside,far⟩ := foreign
    obtain ⟨other,narrow⟩ := exact'.accepts.mp (acceptsIff.mpr ⟨kinds,wide⟩)
    have near := documentedNames narrow name (sequenceUnique wide (sequenceWidened apart narrow) ▸ mem) c inside
    omega
  · intro near
    have accepts : (∃ tokens, tokenize u source = some (.ok tokens)) ↔
        ∃ kinds, Sequence documentedLetters source.toList kinds := by
      rw [acceptsIff]
      constructor
      · intro given
        obtain ⟨kinds,wide⟩ := given
        refine ⟨kinds,sequenceNarrowed (fun name mem c inside => ?_) wide⟩
        exact Nat.lt_of_not_le fun far => near ⟨kinds,wide,name,mem,c,inside,far⟩
      · intro given
        obtain ⟨kinds,narrow⟩ := given
        exact ⟨kinds,sequenceWidened apart narrow⟩
    refine ⟨accepts,fun undocumented => ?_⟩
    obtain ⟨result,lexed,reported⟩ : ∃ result, tokenize u source = some result ∧ _ :=
      runReports (Nat.lt_succ_self _)
    cases result with
    | ok tokens => exact absurd (accepts.mp ⟨tokens,lexed⟩) undocumented
    | error d => exact ⟨d,lexed,reported d rfl⟩

theorem accentForeign (c : Char) (ascii : c.toNat < 128) : (c.isAlpha || c = '\xe9') = c.isAlpha := by
  have other : c ≠ '\xe9' := by
    rintro rfl
    exact absurd ascii (by decide)
  simp [other]

def accented : UnicodeClasses :=
  ⟨fun c => c.isAlpha || c = '\xe9',Char.isDigit,accentForeign,UnicodeClasses.ascii.asciiNumeric⟩

theorem asciiApart (c : Char) (white : isWhitespace c = true) : continues .ascii c = false := by
  refine Bool.eq_false_iff.mpr fun goesOn => ?_
  have ascii : c.toNat < 128 := goesOnAscii goesOn
  have all : ∀ n < 128, isWhitespace (Char.ofNat n) = true → continues .ascii (Char.ofNat n) = false := by
    decide
  have checked := all c.toNat ascii
  rw [Char.ofNat_toNat] at checked
  rw [checked white] at goesOn
  contradiction

theorem accentedApart (c : Char) (white : isWhitespace c = true) : continues accented c = false := by
  have other : c ≠ '\xe9' := by
    rintro rfl
    exact absurd white (by decide)
  have plain := asciiApart c white
  simpa [continues,UnicodeClasses.isAlphanumeric,accented,UnicodeClasses.ascii,other] using plain

theorem lexesDocumentedAccented : LexesDocumented accented "a" ↔ ¬ ForeignName accented "a" :=
  lexesDocumented accentedApart "a"

theorem accentAccepted : (∃ tokens, tokenize accented "\xe9" = some (.ok tokens)) ∧
    (¬ ∃ kinds, Sequence documentedLetters "\xe9".toList kinds) ∧ ¬ LexesDocumented accented "\xe9" := by
  have accepted : ∃ tokens, tokenize accented "\xe9" = some (.ok tokens) := by
    have some : ∃ tokens ∈ (tokenize accented "\xe9").bind Except.toOption, tokens.length = 2 := by
      decide +kernel
    obtain ⟨tokens,found,_⟩ := some
    obtain ⟨result,lexed,ok⟩ := Option.bind_eq_some_iff.mp found
    exact ⟨tokens,lexed.trans (congrArg Option.some (toOptionOk.mp ok))⟩
  have refused : ¬ ∃ kinds, Sequence documentedLetters "\xe9".toList kinds := by
    intro given
    obtain ⟨kinds,narrow⟩ := given
    obtain ⟨tokens,lexed⟩ := acceptsIff.mpr ⟨kinds,sequenceWidened asciiApart narrow⟩
    have none : (tokenize .ascii "\xe9").bind Except.toOption = none := by decide +kernel
    rw [lexed] at none
    contradiction
  exact ⟨accepted,refused,fun exact' => refused (exact'.accepts.mp accepted)⟩

end Lexer
end RootCause.Dsl
