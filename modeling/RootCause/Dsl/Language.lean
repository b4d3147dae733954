import RootCause.Dsl.Texts

/-! The language of pattern files as a grammar over characters: blank text, and tokens in
it that end where no longer one goes on. The lexer reads it with names in every script. -/
namespace RootCause.Dsl

structure Letters where
  starts : Char → Bool
  goesOn : Char → Bool

def documentedLetters : Letters :=
  ⟨fun c => c.isAlpha || c = '_',fun c => c.isAlpha || c.isDigit || c = '_'⟩

def UnicodeClasses.letters (u : UnicodeClasses) : Letters :=
  ⟨fun c => (u.isAlphabetic c || c = '_') && !isWhitespace c,Lexer.continues u⟩

/- A string literal behind its opening quote, up to the closing one, and its value. -/
inductive Quoted : List Char → List Char → Prop where
  | close : Quoted ['"'] []
  | plain {c text value} (plain : Lexer.PlainChar c) (later : Quoted text value) : Quoted (c :: text) (c :: value)
  | escaped {e decoded text value} (meaning : Lexer.escape e = some decoded) (later : Quoted text value) :
      Quoted ('\\' :: e :: text) (decoded :: value)

inductive TokenClass where
  | mark
  | name
  | number
  | quoted
  deriving DecidableEq, Repr

/- The texts of the tokens, whatever follows them. -/
inductive TokenText (a : Letters) : TokenClass → List Char → TokenKind → Prop where
  | mark {c kind} (mem : (c,kind) ∈ Lexer.punctuation) : TokenText a .mark [c] kind
  | name {c cs} (start : a.starts c = true) (later : ∀ d ∈ cs, a.goesOn d = true) :
      TokenText a .name (c :: cs) (Lexer.keyword (String.ofList (c :: cs)))
  | number {negative digits value} (some : digits ≠ []) (digit : ∀ d ∈ digits, d.isDigit = true)
      (fits : Int64.toInt value = written negative digits) :
      TokenText a .number ((if negative then ['-'] else []) ++ digits) (.intLit value)
  | quoted {text value} (quoted : Quoted text value) :
      TokenText a .quoted ('"' :: text) (.stringLit (String.ofList value))

def Ends (a : Letters) (kind : TokenClass) (after : List Char) : Prop :=
  match kind with
  | .name => ∀ c ∈ after.head?, a.goesOn c = false
  | .number => ∀ c ∈ after.head?, c.isDigit = false
  | .mark | .quoted => True

/- Whitespace and comments. Only at the end of the file a comment can do without its newline. -/
inductive Blank : Bool → List Char → Prop where
  | none {last} : Blank last []
  | white {last c rest} (white : isWhitespace c = true) (later : Blank last rest) : Blank last (c :: rest)
  | comment {last line rest} (short : '\n' ∉ line) (later : Blank last rest) :
      Blank last ('/' :: '/' :: line ++ '\n' :: rest)
  | trailing {line} (short : '\n' ∉ line) : Blank true ('/' :: '/' :: line)

/- A text that consists of blank text and tokens of these kinds. -/
inductive Sequence (a : Letters) : List Char → List TokenKind → Prop where
  | done {gap} (blank : Blank true gap) : Sequence a gap []
  | token {gap form text rest kind kinds} (blank : Blank false gap) (token : TokenText a form text kind)
      (ends : Ends a form rest) (later : Sequence a rest kinds) :
      Sequence a (gap ++ (text ++ rest)) (kind :: kinds)

namespace Lexer
variable {u : UnicodeClasses} {cs after : List Char} {kind : TokenKind}

theorem quotedIff {value : List Char} : quotedBody cs = some (value,after) ↔
    ∃ body, cs = body ++ after ∧ Quoted body value := by
  constructor
  · intro read
    fun_induction quotedBody cs generalizing value with
    | case3 =>
      cases read
      exact ⟨['"'],rfl,.close⟩
    | case5 e rest _ _ ih =>
      obtain ⟨decoded,meaning,read⟩ := Option.bind_eq_some_iff.mp read
      obtain ⟨⟨inner,_⟩,found,same⟩ := Option.map_eq_some_iff.mp read
      cases same
      obtain ⟨body,rfl,quoted⟩ := ih found
      exact ⟨'\\' :: e :: body,rfl,.escaped meaning quoted⟩
    | case6 c rest newline quote backslash ih =>
      obtain ⟨⟨inner,_⟩,found,same⟩ := Option.map_eq_some_iff.mp read
      cases same
      obtain ⟨body,rfl,quoted⟩ := ih found
      exact ⟨c :: body,rfl,.plain ⟨newline,quote,backslash⟩ quoted⟩
    | _ => contradiction
  · intro given
    obtain ⟨body,rfl,quoted⟩ := given
    induction quoted with
    | close => exact quotedQuote after
    | plain plain _ ih =>
      rw [List.cons_append,quotedChar plain.1 plain.2.1 plain.2.2,ih]
      rfl
    | escaped meaning _ ih =>
      rw [List.cons_append,List.cons_append,quotedEscape,meaning,ih]
      rfl

theorem dropWhileStops {p : Char → Bool} (cs : List Char) : ∀ c ∈ (cs.dropWhile p).head?, p c = false := by
  intro c head
  have stops := List.head?_dropWhile_not p cs
  rw [Option.mem_def.mp head] at stops
  exact stops

theorem numberSound {a : Letters} (read : scanNumber cs = some (kind,after)) :
    ∃ text, cs = text ++ after ∧ TokenText a .number text kind ∧ Ends a .number after := by
  have sign : cs = (if decide (cs.head? = some '-') then ['-'] else []) ++
      (if cs.head? = some '-' then cs.drop 1 else cs) := by
    split
    · rename_i minus
      obtain ⟨tail,shape⟩ := List.head?_eq_some_iff.mp (of_decide_eq_true minus)
      simp [shape]
    · rename_i plus
      simp [of_decide_eq_false (Bool.eq_false_iff.mpr plus)]
  unfold scanNumber at read
  simp only at read
  generalize (if cs.head? = some '-' then cs.drop 1 else cs) = signed at read sign
  split at read
  · contradiction
  · rename_i nonempty
    obtain ⟨value,parsed,same⟩ := Option.map_eq_some_iff.mp read
    cases same
    refine ⟨_,?_,.number (by simpa using nonempty) (fun d mem => List.mem_takeWhile_imp mem)
      (parseI64Exact.mp parsed),dropWhileStops signed⟩
    rw [List.append_assoc,List.takeWhile_append_dropWhile]
    exact sign

theorem numberComplete {a : Letters} {text : List Char} (token : TokenText a .number text kind)
    (ends : Ends a .number after) : scanNumber (text ++ after) = some (kind,after) := by
  cases token with
  | @number negative digits value some digit fits =>
    obtain ⟨taken,left⟩ := takeWhileStops digit ends
    obtain ⟨d,ds,shape⟩ := List.exists_cons_of_ne_nil some
    have unsigned : d ≠ '-' := by
      intro same
      have first := digit d (by simp [shape])
      rw [same] at first
      contradiction
    have signed : ((if negative then ['-'] else []) ++ digits ++ after).head? = Option.some '-' ↔
        negative = true := by
      cases negative <;> simp [shape,unsigned]
    have bare : (if ((if negative then ['-'] else []) ++ digits ++ after).head? = Option.some '-' then
        ((if negative then ['-'] else []) ++ digits ++ after).drop 1 else
          (if negative then ['-'] else []) ++ digits ++ after) = digits ++ after := by
      cases negative <;> simp [shape,unsigned]
    have sign : decide (((if negative then ['-'] else []) ++ digits ++ after).head? = Option.some '-') =
        negative := by
      rw [Bool.eq_iff_iff,decide_eq_true_eq,signed]
    have parsed := parseI64Exact.mpr fits
    have empty : digits.isEmpty = false := by simpa using some
    unfold scanNumber
    simp only [bare,sign,taken,left,empty,parsed,Bool.false_eq_true,if_false,Option.map_some]

theorem letterStarts {ch : Char} (black : isWhitespace ch = false) :
    u.isAlphabetic ch = true ∨ ch = '_' ↔ u.letters.starts ch = true := by
  simp [UnicodeClasses.letters,black]

theorem scanSound {ch : Char} {rest : List Char} (black : isWhitespace ch = false)
    (read : scan u ch (ch :: rest) = some (kind,after)) : ∃ form text, ch :: rest = text ++ after ∧
      TokenText u.letters form text kind ∧ Ends u.letters form after := by
  let whole (read : Option (TokenKind × List Char)) : Prop := ∀ kind after, read = some (kind,after) →
    ∃ form text, ch :: rest = text ++ after ∧ TokenText u.letters form text kind ∧ Ends u.letters form after
  have single {c : Char} {kind : TokenKind} (mem : (c,kind) ∈ punctuation) (here : ch = c) :
      whole (some (kind,(ch :: rest).drop 1)) := by
    intro _ _ same
    cases same
    exact ⟨.mark,[c],by rw [here]; rfl,.mark mem,trivial⟩
  have all : whole (scan u ch (ch :: rest)) := by
    unfold scan
    iterate 8 refine iteInduction (single (by decide)) fun _ => ?_
    refine iteInduction (fun quote _ _ read => ?_) fun _ => ?_
    · obtain ⟨⟨value,left⟩,found,same⟩ := Option.map_eq_some_iff.mp read
      cases same
      obtain ⟨body,shape,quoted⟩ := quotedIff.mp found
      refine ⟨.quoted,'"' :: body,?_,.quoted quoted,trivial⟩
      rw [quote,List.cons_append]
      exact congrArg _ shape
    refine iteInduction (fun _ _ _ read => ⟨.number,numberSound read⟩) fun _ => ?_
    refine iteInduction (fun named _ _ same => ?_) fun _ _ _ failed => ?_
    · cases same
      have follows := namedContinues named
      rw [List.takeWhile_cons_of_pos follows,List.dropWhile_cons_of_pos follows]
      refine ⟨.name,ch :: rest.takeWhile (continues u),?_,.name ((letterStarts black).mp named) fun d mem =>
        List.mem_takeWhile_imp mem,dropWhileStops rest⟩
      rw [List.cons_append,List.takeWhile_append_dropWhile]
    · contradiction
  exact all kind after read

theorem scanComplete {ch : Char} {rest text : List Char} {form : TokenClass} (black : isWhitespace ch = false)
    (shape : ch :: rest = text ++ after) (token : TokenText u.letters form text kind)
    (ends : Ends u.letters form after) : scan u ch (ch :: rest) = some (kind,after) := by
  cases token with
  | mark mem =>
    obtain ⟨rfl,rfl⟩ := List.cons.inj shape
    rw [← firstStart black (by rintro rfl; simp [punctuation] at mem)]
    exact firstMark mem
  | @name c cs start later =>
    obtain ⟨rfl,rfl⟩ := List.cons.inj shape
    have follows := namedContinues ((letterStarts black).mpr start)
    obtain ⟨taken,left⟩ := takeWhileStops (List.forall_mem_cons.mpr ⟨follows,later⟩) ends
    rw [scanName ((letterStarts black).mpr start),shape,taken,left]
  | @number negative digits value some digit fits =>
    have first : ch = '-' ∨ ch.isDigit = true := by
      cases negative with
      | true => exact .inl (List.cons.inj shape).1
      | false =>
        obtain ⟨d,ds,same⟩ := List.exists_cons_of_ne_nil some
        rw [same] at shape
        exact .inr ((List.cons.inj shape).1 ▸ digit d (by simp [same]))
    rw [scanSigned first,shape]
    exact numberComplete (.number some digit fits) ends
  | @quoted body value quoted =>
    obtain ⟨rfl,rfl⟩ := List.cons.inj shape
    have opened : scan u '"' ('"' :: body.append after) = (quotedBody (body ++ after)).map fun r =>
        (.stringLit (String.ofList r.1),r.2) := rfl
    rw [opened,quotedIff.mpr ⟨body,rfl,quoted⟩]
    rfl

def Skipped (inComment last : Bool) (text : List Char) : Prop :=
  match inComment with
  | false => Blank last text
  | true => ∃ line, '\n' ∉ line ∧
      (text = line ∧ last = true ∨ ∃ later, text = line ++ '\n' :: later ∧ Blank last later)

theorem triviaSkipped (inComment : Bool) (cs : List Char) :
    Skipped inComment (cs.drop (triviaLength inComment cs)).isEmpty (cs.take (triviaLength inComment cs)) := by
  fun_induction triviaLength inComment cs with
  | case1 inComment =>
    cases inComment with
    | false => exact .none
    | true => exact ⟨[],List.not_mem_nil,.inl ⟨rfl,rfl⟩⟩
  | case2 inComment rest ih =>
    cases inComment with
    | false => exact .white (by decide) ih
    | true => exact ⟨[],List.not_mem_nil,.inr ⟨_,rfl,ih⟩⟩
  | case3 c rest newline ih =>
    obtain ⟨line,short,shape⟩ := ih
    refine ⟨c :: line,by simp [short,Ne.symm newline],?_⟩
    rcases shape with ⟨text,last⟩ | ⟨later,text,blank⟩
    · exact .inl ⟨congrArg _ text,last⟩
    · exact .inr ⟨later,congrArg _ text,blank⟩
  | case4 inComment c rest _ outside white ih =>
    cases Bool.eq_false_iff.mpr outside
    exact .white white ih
  | case5 inComment c rest _ outside _ comment ih =>
    cases Bool.eq_false_iff.mpr outside
    obtain ⟨rfl,second⟩ := comment
    obtain ⟨tail,rfl⟩ := List.head?_eq_some_iff.mp second
    obtain ⟨line,short,shape⟩ := ih
    -- The two slashes are passed over one by one, the second as the comment's first character.
    have step : triviaLength true ('/' :: tail) = triviaLength true tail + 1 := by
      rw [triviaLength,if_neg (by decide),if_pos rfl]
    rw [step,List.take_succ_cons,List.drop_succ_cons] at shape ⊢
    cases line with
    | nil => simp at shape
    | cons slash line =>
      have inside : '\n' ∉ line := fun mem => short (List.mem_cons_of_mem _ mem)
      rcases shape with ⟨text,last⟩ | ⟨later,text,blank⟩
      · obtain ⟨rfl,rest⟩ := List.cons.inj text
        rw [List.take_succ_cons,rest,List.drop_succ_cons,last]
        exact .trailing inside
      · obtain ⟨rfl,rest⟩ := List.cons.inj text
        rw [List.take_succ_cons,rest,List.drop_succ_cons]
        exact .comment inside blank
  | case6 inComment c rest _ outside _ _ =>
    cases Bool.eq_false_iff.mpr outside
    exact .none

theorem triviaBlank (cs : List Char) :
    Blank (trimmed cs).isEmpty (cs.take (triviaLength false cs)) := triviaSkipped false cs

theorem blankTrimmed {last : Bool} {gap rest : List Char} (blank : Blank last gap)
    (atEnd : last = true → rest = []) : trimmed (gap ++ rest) = trimmed rest := by
  induction blank with
  | none => rfl
  | white white _ ih =>
    rw [List.cons_append,trimmedSpace white]
    exact ih atEnd
  | @comment last line later short _ ih =>
    rw [List.append_assoc,trimmedComment short (.inr rfl),List.cons_append,trimmedSpace (by decide)]
    exact ih atEnd
  | trailing short =>
    cases atEnd rfl
    exact trimmedComment short (.inl rfl)

theorem textStart {a : Letters} {form : TokenClass} {text : List Char} (token : TokenText a form text kind)
    (letters : ∀ c, a.starts c = true → isWhitespace c = false ∧ c ≠ '/') :
    ∃ c rest, text = c :: rest ∧ isWhitespace c = false ∧ c ≠ '/' := by
  cases token with
  | @mark c kind mem =>
    refine ⟨c,[],rfl,?_⟩
    have all : punctuation.all (fun m => !isWhitespace m.1 && m.1 ≠ '/') = true := rfl
    simpa using List.all_eq_true.mp all _ mem
  | name start _ => exact ⟨_,_,rfl,letters _ start⟩
  | @number negative digits value some digit =>
    obtain ⟨d,ds,shape⟩ := List.exists_cons_of_ne_nil some
    have first := digitAscii (digit d (by simp [shape]))
    cases negative with
    | true => exact ⟨'-',digits,rfl,by decide,by decide⟩
    | false => exact ⟨d,ds,shape,first.2.2⟩
  | quoted => exact ⟨'"',_,rfl,by decide,by decide⟩

theorem wideStart (u : UnicodeClasses) (c : Char) (start : u.letters.starts c = true) :
    isWhitespace c = false ∧ c ≠ '/' := by
  have named : (u.isAlphabetic c = true ∨ c = '_') ∧ isWhitespace c = false := by
    simpa [UnicodeClasses.letters] using start
  exact ⟨named.2,(nameStart named.1).2.2⟩

theorem firstIff : first u cs = some (kind,after) ↔ ∃ gap form text, cs = gap ++ (text ++ after) ∧
    Blank false gap ∧ TokenText u.letters form text kind ∧ Ends u.letters form after := by
  constructor
  · intro read
    unfold first at read
    split at read
    · contradiction
    · rename_i ch rest here
      obtain ⟨form,text,shape,token,ends⟩ := scanSound (dropTriviaHead here) read
      have blank := triviaBlank cs
      rw [here,List.isEmpty_cons] at blank
      refine ⟨_,form,text,?_,blank,token,ends⟩
      rw [← shape,← here,trimmed,List.take_append_drop]
  · intro given
    obtain ⟨gap,form,text,rfl,blank,token,ends⟩ := given
    obtain ⟨c,rest,rfl,black,slash⟩ := textStart token (wideStart u)
    rw [first,blankTrimmed blank (by simp),List.cons_append,trimmedStart black slash]
    exact scanComplete black rfl token ends

theorem trimmedEmpty : trimmed cs = [] ↔ Blank true cs := by
  constructor
  · intro empty
    have blank := triviaBlank cs
    have whole := List.take_append_drop (triviaLength false cs) cs
    rw [show cs.drop (triviaLength false cs) = [] from empty,List.append_nil] at whole
    rwa [empty,whole] at blank
  · intro blank
    have skipped := @blankTrimmed _ _ [] blank fun _ => rfl
    rwa [List.append_nil] at skipped

theorem lexesSequence {kinds : List TokenKind} :
    Lexes u cs kinds ↔ ∃ inner, kinds = inner ++ [.eof] ∧ Sequence u.letters cs inner := by
  constructor
  · intro lexes
    induction lexes with
    | done trivia => exact ⟨[],rfl,.done (trimmedEmpty.mp trivia)⟩
    | @token cs kind after kinds read _ ih =>
      obtain ⟨inner,rfl,later⟩ := ih
      obtain ⟨gap,form,text,rfl,blank,token,ends⟩ := firstIff.mp read
      exact ⟨kind :: inner,rfl,.token blank token ends later⟩
  · intro given
    obtain ⟨inner,rfl,sequence⟩ := given
    induction sequence with
    | done blank => exact .done (trimmedEmpty.mpr blank)
    | token blank token ends _ ih => exact .token (firstIff.mpr ⟨_,_,_,rfl,blank,token,ends⟩) ih

end Lexer
end RootCause.Dsl
