import Mathlib.Data.List.TakeWhile
import RootCause.Dsl.Spelling

/-! Texts that are written token by token: names and keywords, numbers, marks, and string
literals whose characters stand in the text as they are. -/
namespace RootCause.Dsl
namespace Lexer
variable {u : UnicodeClasses}

def Stops (u : UnicodeClasses) (cs : List Char) : Prop := ∀ c ∈ cs.head?, continues u c = false

theorem stopsAscii {c : Char} (ascii : c.toNat < 128) (other : c.isAlpha = false ∧ c.isDigit = false ∧ c ≠ '_')
    {rest : List Char} : Stops u (c :: rest) := by
  intro d mem
  cases mem
  simp [continues,UnicodeClasses.isAlphanumeric,u.asciiAlphabetic c ascii,u.asciiNumeric c ascii,other]

theorem trimmedSpace {c : Char} (white : isWhitespace c = true) (rest : List Char) :
    trimmed (c :: rest) = trimmed rest := by
  by_cases newline : c = '\n'
  · simp [trimmed,triviaLength,newline]
  · simp [trimmed,triviaLength,newline,white]

theorem trimmedStart {c : Char} (black : isWhitespace c = false) (slash : c ≠ '/') (rest : List Char) :
    trimmed (c :: rest) = c :: rest := by
  have newline : c ≠ '\n' := by
    intro same
    rw [same] at black
    contradiction
  simp [trimmed,triviaLength,newline,black,slash]

theorem commentLength {line : List Char} (short : '\n' ∉ line) (rest : List Char) :
    triviaLength true (line ++ rest) = line.length + triviaLength true rest := by
  induction line with
  | nil => simp
  | cons c line ih =>
    rw [List.mem_cons,not_or] at short
    rw [List.cons_append,triviaLength,if_neg (Ne.symm short.1),if_pos rfl,ih short.2,List.length_cons]
    omega

theorem trimmedComment {line rest : List Char} (short : '\n' ∉ line)
    (ends : rest.head? = none ∨ rest.head? = some '\n') : trimmed ('/' :: '/' :: line ++ rest) = trimmed rest := by
  have ended : triviaLength true rest = triviaLength false rest := by
    cases rest with
    | nil => rfl
    | cons c rest =>
      have newline : c = '\n' := by simpa using ends
      simp [triviaLength,newline]
  have length : triviaLength false (('/' :: '/' :: line) ++ rest) =
      ('/' :: '/' :: line).length + triviaLength false rest := by
    simp [triviaLength,commentLength short,ended,isWhitespace]
    omega
  rw [trimmed,length,List.drop_length_add_append]
  rfl

theorem dropTriviaHead {inComment : Bool} {cs rest : List Char} {ch : Char}
    (shape : cs.drop (triviaLength inComment cs) = ch :: rest) : isWhitespace ch = false := by
  fun_induction triviaLength inComment cs with
  | case1 => contradiction
  | case2 _ _ ih => exact ih shape
  | case3 _ _ _ ih => exact ih shape
  | case4 _ _ _ _ _ _ ih => exact ih shape
  | case5 _ _ _ _ _ _ _ ih => exact ih shape
  | case6 inComment c cs _ _ white _ =>
    cases shape
    exact Bool.eq_false_iff.mpr white

structure Word (u : UnicodeClasses) (text : String) (kind : TokenKind) : Prop where
  start : ∃ c cs, text.toList = c :: cs ∧ (u.isAlphabetic c = true ∨ c = '_') ∧ isWhitespace c = false
  within : ∀ c ∈ text.toList, continues u c = true
  meaning : keyword text = kind

def keywordLetter (c : Char) : Bool := c.toNat < 128 && (c.isAlpha || c = '_') && !isWhitespace c

theorem wordAscii (text : String) (nonempty : text.toList ≠ []) (letters : text.toList.all keywordLetter = true) :
    Word u text (keyword text) := by
  have each {c : Char} (mem : c ∈ text.toList) :
      c.toNat < 128 ∧ (c.isAlpha = true ∨ c = '_') ∧ isWhitespace c = false := by
    simpa [keywordLetter,and_assoc] using List.all_eq_true.mp letters c mem
  have letter {c : Char} (mem : c ∈ text.toList) : u.isAlphabetic c = true ∨ c = '_' := by
    obtain ⟨ascii,named,_⟩ := each mem
    rwa [u.asciiAlphabetic c ascii]
  refine ⟨?_,fun c mem => ?_,rfl⟩
  · obtain ⟨c,cs,shape⟩ := List.exists_cons_of_ne_nil nonempty
    have mem : c ∈ text.toList := by simp [shape]
    exact ⟨c,cs,shape,letter mem,(each mem).2.2⟩
  · exact namedContinues (letter mem)

theorem digitAscii {c : Char} (digit : c.isDigit = true) :
    c.toNat < 128 ∧ c.isAlpha = false ∧ isWhitespace c = false ∧ c ≠ '/' := by
  have bounds : 48 ≤ c.toNat ∧ c.toNat ≤ 57 := Char.isDigit_iff_toNat.mp digit
  refine ⟨by omega,?_,?_,?_⟩
  · have letter : c.isAlpha = (decide (65 ≤ c.toNat ∧ c.toNat ≤ 90) ||
      (decide (97 ≤ c.toNat) && decide (c.toNat ≤ 122))) := rfl
    rw [letter]
    simp
    omega
  · simp [isWhitespace]
    omega
  · intro slash
    rw [slash] at bounds
    contradiction

def marks : List Char := ['\x7b','\x7d','[',']','(',')',':',',','"']

theorem nameStart {c : Char} (named : u.isAlphabetic c = true ∨ c = '_') :
    (∀ m ∈ marks, c ≠ m) ∧ ¬ (c = '-' ∨ c.isDigit = true) ∧ c ≠ '/' := by
  have other {m : Char} (ascii : m.toNat < 128) (mark : m.isAlpha = false ∧ m ≠ '_') : c ≠ m := by
    intro same
    rw [same,u.asciiAlphabetic m ascii,mark.1] at named
    exact mark.2 (named.resolve_left (by simp))
  refine ⟨?_,?_,other (by decide) (by decide)⟩
  · intro m mem
    have all : marks.all (fun m => m.toNat < 128 && !m.isAlpha && m ≠ '_') = true := rfl
    have ascii : (m.toNat < 128 ∧ m.isAlpha = false) ∧ m ≠ '_' := by simpa using List.all_eq_true.mp all m mem
    exact other ascii.1.1 ⟨ascii.1.2,ascii.2⟩
  · intro number
    rcases number with sign | digit
    · exact other (by decide) (by decide) sign
    · have ascii := digitAscii digit
      have underscore : c ≠ '_' := by
        intro same
        rw [same] at digit
        contradiction
      exact other ascii.1 ⟨ascii.2.1,underscore⟩ rfl

theorem firstStart {c : Char} (black : isWhitespace c = false) (slash : c ≠ '/') (rest : List Char) :
    first u (c :: rest) = scan u c (c :: rest) := by
  rw [first,trimmedStart black slash]

theorem scanName {c : Char} (named : u.isAlphabetic c = true ∨ c = '_') (cs : List Char) : scan u c cs =
    some (keyword (String.ofList (cs.takeWhile (continues u))),cs.dropWhile (continues u)) := by
  obtain ⟨mark,number,_⟩ := nameStart named
  unfold scan
  iterate 9 rw [if_neg (mark _ (by decide))]
  rw [if_neg number,if_pos named]

theorem takeWhileStops {p : Char → Bool} {cs rest : List Char} (all : ∀ c ∈ cs, p c = true)
    (stops : ∀ c ∈ rest.head?, p c = false) :
    (cs ++ rest).takeWhile p = cs ∧ (cs ++ rest).dropWhile p = rest := by
  have none : rest.takeWhile p = [] ∧ rest.dropWhile p = rest := by
    cases rest with
    | nil => simp
    | cons c rest => simp [stops c rfl]
  rw [List.takeWhile_append_of_pos all,List.dropWhile_append_of_pos all,none.1,none.2,List.append_nil]
  exact ⟨rfl,rfl⟩

theorem firstWord {text : String} {kind : TokenKind} (word : Word u text kind) {rest : List Char}
    (stops : Stops u rest) : first u (text.toList ++ rest) = some (kind,rest) := by
  obtain ⟨⟨c,cs,shape,named,black⟩,within,meaning⟩ := word
  obtain ⟨taken,left⟩ := takeWhileStops within stops
  have start : first u (text.toList ++ rest) = scan u c (text.toList ++ rest) := by
    rw [shape]
    exact firstStart black (nameStart named).2.2 _
  rw [start,scanName named,taken,left,String.ofList_toList,meaning]

def punctuation : List (Char × TokenKind) := [('\x7b',.lBrace),('\x7d',.rBrace),('[',.lBracket),(']',.rBracket),
  ('(',.lParen),(')',.rParen),(':',.colon),(',',.comma)]

theorem firstMark {c : Char} {kind : TokenKind} {rest : List Char} (mark : (c,kind) ∈ punctuation) :
    first u (c :: rest) = some (kind,rest) := by
  simp only [punctuation,List.mem_cons,Prod.mk.injEq,List.not_mem_nil,or_false] at mark
  rcases mark with ⟨rfl,rfl⟩ | ⟨rfl,rfl⟩ | ⟨rfl,rfl⟩ | ⟨rfl,rfl⟩ | ⟨rfl,rfl⟩ | ⟨rfl,rfl⟩ | ⟨rfl,rfl⟩ | ⟨rfl,rfl⟩ <;>
    exact firstStart (by decide) (by decide) rest

theorem firstQuote (rest : List Char) : first u ('"' :: rest) =
    (quotedBody rest).map fun r => (.stringLit (String.ofList r.1),r.2) := by
  rw [firstStart (by decide) (by decide)]
  rfl

theorem intText (n : Int64) : ∃ negative digits,
    (toString n).toList = (if negative then ['-'] else []) ++ digits ∧
      (∀ c ∈ digits, c.isDigit = true) ∧ digits ≠ [] ∧ n.toInt = written negative digits := by
  have digits (m : Nat) : (∀ c ∈ Nat.toDigits 10 m, c.isDigit = true) ∧ Nat.toDigits 10 m ≠ [] :=
    ⟨fun c mem => Nat.isDigit_of_mem_toDigits (by decide) (by decide) mem,Nat.toDigits_ne_nil⟩
  have text : (toString n).toList = n.toInt.repr.toList := rfl
  rw [text,Int.repr_eq_if]
  split
  · refine ⟨false,Nat.toDigits 10 n.toInt.toNat,Nat.toList_repr,(digits _).1,(digits _).2,?_⟩
    rw [written,if_neg Bool.false_ne_true,Nat.ofDigitChars_ten_toDigits]
    omega
  · refine ⟨true,Nat.toDigits 10 (-n.toInt).toNat,?_,(digits _).1,(digits _).2,?_⟩
    · rw [String.toList_append,Nat.toList_repr]
      rfl
    · rw [written,if_pos rfl,Nat.ofDigitChars_ten_toDigits]
      omega

theorem scanSigned {c : Char} (number : c = '-' ∨ c.isDigit = true) (cs : List Char) :
    scan u c cs = scanNumber cs := by
  have all : marks.all (fun m => m ≠ '-' && !m.isDigit) = true := rfl
  have sober : ∀ m ∈ marks, ¬ (m = '-' ∨ m.isDigit = true) := by
    intro m mem
    simpa using List.all_eq_true.mp all m mem
  have mark {m : Char} (mem : m ∈ marks) : c ≠ m := fun same => sober m mem (same ▸ number)
  unfold scan
  iterate 9 rw [if_neg (mark (by decide))]
  rw [if_pos number]

theorem firstInt (n : Int64) {rest : List Char} (stops : Stops u rest) :
    first u ((toString n).toList ++ rest) = some (.intLit n,rest) := by
  obtain ⟨negative,digits,text,all,nonempty,value⟩ := intText n
  have ends : ∀ c ∈ rest.head?, c.isDigit = false := by
    intro c mem
    have other := stops c mem
    by_contra digit
    have digit : c.isDigit = true := by simpa using digit
    simp [continues,UnicodeClasses.isAlphanumeric,u.asciiNumeric c (digitAscii digit).1,digit] at other
  obtain ⟨taken,left⟩ := takeWhileStops all ends
  have parsed := parseI64Exact.mpr value
  have some : digits.isEmpty = false := by simpa using nonempty
  obtain ⟨d,ds,shape⟩ := List.exists_cons_of_ne_nil nonempty
  have digit := all d (by simp [shape])
  have unsigned : d ≠ '-' := by
    intro same
    rw [same] at digit
    contradiction
  rw [text]
  cases negative with
  | true =>
    have start : first u ('-' :: (digits ++ rest)) = scanNumber ('-' :: (digits ++ rest)) := by
      rw [firstStart (by decide) (by decide),scanSigned (.inl rfl)]
    refine start.trans ?_
    simp [scanNumber,taken,left,parsed,nonempty]
  | false =>
    have start : first u (digits ++ rest) = scanNumber (digits ++ rest) := by
      rw [shape,List.cons_append,firstStart (digitAscii digit).2.2.1 (digitAscii digit).2.2.2,
        scanSigned (.inr digit)]
    refine start.trans ?_
    have plain : (digits ++ rest).head? ≠ Option.some '-' := by simp [shape,unsigned]
    simp only [scanNumber,plain,decide_false,Bool.false_eq_true,if_false,taken,left,some,parsed,Option.map_some]

def PlainChar (c : Char) : Prop := c ≠ '\n' ∧ c ≠ '"' ∧ c ≠ '\\'

def Plain (s : String) : Prop := ∀ c ∈ s.toList, PlainChar c

theorem quotedPlain {cs rest : List Char} (plain : ∀ c ∈ cs, PlainChar c) :
    quotedBody (cs ++ '"' :: rest) = some (cs,rest) := by
  induction cs with
  | nil => exact quotedQuote rest
  | cons c cs ih =>
    obtain ⟨⟨newline,quote,backslash⟩,later⟩ := List.forall_mem_cons.mp plain
    rw [List.cons_append,quotedChar newline quote backslash,ih later]
    rfl

theorem escapeBackslash {e : Char} (decoded : escape e = some '\\') : e = '\\' := by
  unfold escape at decoded
  split at decoded
  · contradiction
  · split at decoded
    · assumption
    · split at decoded
      · contradiction
      · split at decoded <;> contradiction

theorem quotedFromBackslash {cs value after : List Char} (read : quotedBody cs = some ('\\' :: value,after)) :
    ∃ rest, cs = '\\' :: '\\' :: rest ∧ quotedBody rest = some (value,after) := by
  cases cs with
  | nil => contradiction
  | cons c cs =>
    by_cases newline : c = '\n'
    · simp [newline] at read
    by_cases quote : c = '"'
    · simp [quote] at read
    by_cases backslash : c = '\\'
    · cases cs with
      | nil => simp [backslash] at read
      | cons e rest =>
        rw [backslash,quotedEscape] at read
        obtain ⟨decoded,escaped,read⟩ := Option.bind_eq_some_iff.mp read
        obtain ⟨r,inner,same⟩ := Option.map_eq_some_iff.mp read
        cases same
        exact ⟨rest,by rw [backslash,escapeBackslash escaped],inner⟩
    · rw [quotedChar newline quote backslash] at read
      obtain ⟨r,inner,same⟩ := Option.map_eq_some_iff.mp read
      cases same
      contradiction

theorem quotedBehind {cs rest after : List Char} (lag : Nat) :
    quotedBody (cs ++ '"' :: rest) ≠ some (List.replicate (lag + 1) '\\' ++ cs,after) := by
  intro read
  induction cs using List.twoStepInduction generalizing lag with
  | nil =>
    obtain ⟨left,shape,_⟩ := quotedFromBackslash read
    simp at shape
  | singleton c =>
    obtain ⟨left,shape,_⟩ := quotedFromBackslash read
    simp at shape
  | cons_cons c e cs ih _ =>
    obtain ⟨left,shape,later⟩ := quotedFromBackslash read
    simp only [List.cons_append,List.cons.injEq] at shape
    obtain ⟨rfl,rfl,rfl⟩ := shape
    apply ih (lag + 1)
    rw [later,List.replicate_succ',List.replicate_succ']
    simp

theorem quotedOnlyPlain {cs rest after : List Char} (read : quotedBody (cs ++ '"' :: rest) = some (cs,after)) :
    ∀ c ∈ cs, PlainChar c := by
  induction cs with
  | nil => simp
  | cons c cs ih =>
    by_cases newline : c = '\n'
    · simp [newline] at read
    by_cases quote : c = '"'
    · simp [quote] at read
    by_cases backslash : c = '\\'
    · rw [backslash] at read
      obtain ⟨left,shape,later⟩ := quotedFromBackslash read
      cases cs with
      | nil => simp at shape
      | cons e cs =>
        simp only [List.cons_append,List.cons.injEq] at shape
        obtain ⟨_,rfl,rfl⟩ := shape
        exact absurd later (quotedBehind 0)
    · rw [List.cons_append,quotedChar newline quote backslash] at read
      obtain ⟨r,inner,same⟩ := Option.map_eq_some_iff.mp read
      cases same
      exact List.forall_mem_cons.mpr ⟨⟨newline,quote,backslash⟩,ih inner⟩

inductive Spells (u : UnicodeClasses) : List Char → List TokenKind → List Char → Prop where
  | done {rest} : Spells u rest [] rest
  | space {c cs kinds rest} (white : isWhitespace c = true) (later : Spells u cs kinds rest) :
      Spells u (c :: cs) kinds rest
  | token {taken after kind kinds rest} (read : first u (taken ++ after) = some (kind,after)) (quiet : '"' ∉ taken)
      (other : ∀ s, kind ≠ .stringLit s) (later : Spells u after kinds rest) :
      Spells u (taken ++ after) (kind :: kinds) rest
  | text {cs kinds rest} (s : String) (later : Spells u cs kinds rest) :
      Spells u ('"' :: (s.toList ++ '"' :: cs)) (.stringLit s :: kinds) rest

section
variable {cs ds rest : List Char} {kinds more : List TokenKind}

theorem Spells.append (text : Spells u cs kinds ds) (later : Spells u ds more rest) :
    Spells u cs (kinds ++ more) rest := by
  induction text with
  | done => exact later
  | space white _ ih => exact .space white (ih later)
  | token read quiet other _ ih => exact .token read quiet other (ih later)
  | text s _ ih => exact .text s (ih later)

theorem Spells.gap (later : Spells u cs kinds rest) : Spells u (' ' :: cs) kinds rest := .space (by decide) later
theorem Spells.newline (later : Spells u cs kinds rest) : Spells u ('\n' :: cs) kinds rest :=
  .space (by decide) later
theorem Spells.lineEnd (rest : List Char) : Spells u ('\n' :: rest) [] rest := .newline .done

theorem Spells.word {text : String} {kind : TokenKind} (word : Word u text kind)
    (other : ∀ s, kind ≠ .stringLit s) (stops : Stops u cs) (later : Spells u cs kinds rest) :
    Spells u (text.toList ++ cs) (kind :: kinds) rest := by
  refine .token (firstWord word stops) (fun quoted => ?_) other later
  have within := word.within '"' quoted
  simp [continues,UnicodeClasses.isAlphanumeric,u.asciiAlphabetic '"' (by decide),u.asciiNumeric '"' (by decide)]
    at within

theorem Spells.int (n : Int64) (stops : Stops u cs) (later : Spells u cs kinds rest) :
    Spells u ((toString n).toList ++ cs) (.intLit n :: kinds) rest := by
  refine .token (firstInt n stops) (fun quoted => ?_) (by simp) later
  obtain ⟨negative,digits,text,all,_⟩ := intText n
  rw [text] at quoted
  rcases List.mem_append.mp quoted with sign | digit
  · cases negative <;> simp at sign
  · exact absurd (all '"' digit) (by decide)

theorem Spells.mark {c : Char} {kind : TokenKind} (mark : (c,kind) ∈ punctuation) (later : Spells u cs kinds rest) :
    Spells u (c :: cs) (kind :: kinds) rest := by
  have sober : c ≠ '"' ∧ ∀ s, kind ≠ .stringLit s := by
    simp only [punctuation,List.mem_cons,Prod.mk.injEq,List.not_mem_nil,or_false] at mark
    rcases mark with ⟨rfl,rfl⟩ | ⟨rfl,rfl⟩ | ⟨rfl,rfl⟩ | ⟨rfl,rfl⟩ | ⟨rfl,rfl⟩ | ⟨rfl,rfl⟩ | ⟨rfl,rfl⟩ | ⟨rfl,rfl⟩ <;>
      simp
  have quiet : '"' ∉ [c] := by simpa using sober.1.symm
  exact .token (firstMark mark) quiet sober.2 later

theorem Spells.colon (later : Spells u cs kinds rest) : Spells u (':' :: cs) (.colon :: kinds) rest :=
  .mark (by simp [punctuation]) later
theorem Spells.comma (later : Spells u cs kinds rest) : Spells u (',' :: cs) (.comma :: kinds) rest :=
  .mark (by simp [punctuation]) later
theorem Spells.lBrace (later : Spells u cs kinds rest) : Spells u ('\x7b' :: cs) (.lBrace :: kinds) rest :=
  .mark (by simp [punctuation]) later
theorem Spells.rBrace (later : Spells u cs kinds rest) : Spells u ('\x7d' :: cs) (.rBrace :: kinds) rest :=
  .mark (by simp [punctuation]) later
theorem Spells.lBracket (later : Spells u cs kinds rest) : Spells u ('[' :: cs) (.lBracket :: kinds) rest :=
  .mark (by simp [punctuation]) later
theorem Spells.rBracket (later : Spells u cs kinds rest) : Spells u (']' :: cs) (.rBracket :: kinds) rest :=
  .mark (by simp [punctuation]) later
theorem Spells.lParen (later : Spells u cs kinds rest) : Spells u ('(' :: cs) (.lParen :: kinds) rest :=
  .mark (by simp [punctuation]) later
theorem Spells.rParen (later : Spells u cs kinds rest) : Spells u (')' :: cs) (.rParen :: kinds) rest :=
  .mark (by simp [punctuation]) later

theorem spellsLexes (spells : Spells u cs kinds rest) : Lexes u cs (kinds ++ more) ↔
    (∀ s, .stringLit s ∈ kinds → Plain s) ∧ Lexes u rest more := by
  induction spells with
  | done => simp
  | @space c cs kinds rest white _ ih =>
    rw [← ih]
    exact ⟨lexesTrimmed (trimmedSpace white cs),lexesTrimmed (trimmedSpace white cs).symm⟩
  | @token taken after kind kinds rest read _ other _ ih =>
    rw [List.cons_append,lexesToken read]
    simp [ih,fun s => (other s).symm]
  | @text cs kinds rest s later ih =>
    simp only [List.cons_append,List.mem_cons,TokenKind.stringLit.injEq,forall_eq_or_imp,and_assoc]
    constructor
    · intro lexes
      cases lexes with
      | token read later =>
        rw [firstQuote] at read
        obtain ⟨⟨value,after⟩,inner,same⟩ := Option.map_eq_some_iff.mp read
        simp only [Prod.mk.injEq,TokenKind.stringLit.injEq] at same
        obtain ⟨rfl,rfl⟩ := same
        rw [String.toList_ofList] at inner
        have plain := quotedOnlyPlain inner
        rw [quotedPlain plain] at inner
        cases inner
        exact ⟨by rwa [Plain,String.toList_ofList],ih.mp later⟩
    · intro plain
      refine .token ?_ (ih.mpr plain.2)
      rw [firstQuote,quotedPlain plain.1]
      simp

end

theorem keywordIdent {text name : String} (named : keyword text = .ident name) : text = name := by
  unfold keyword at named
  split at named <;> cases named
  rfl

theorem scanIdent {ch : Char} {cs after : List Char} {name : String}
    (read : scan u ch cs = some (.ident name,after)) : (u.isAlphabetic ch = true ∨ ch = '_') ∧
      name = String.ofList (cs.takeWhile (continues u)) := by
  let named (read : Option (TokenKind × List Char)) : Prop := ∀ name after, read = some (.ident name,after) →
    (u.isAlphabetic ch = true ∨ ch = '_') ∧ name = String.ofList (cs.takeWhile (continues u))
  have whole : named (scan u ch cs) := by
    unfold scan
    iterate 8 refine iteInduction (fun _ _ _ same => by simp at same) fun _ => ?_
    refine iteInduction (fun _ _ _ read => ?_) fun _ => ?_
    · obtain ⟨r,_,same⟩ := Option.map_eq_some_iff.mp read
      simp at same
    refine iteInduction (fun _ _ _ read => ?_) fun _ => ?_
    · obtain ⟨value,same⟩ := (numberRead read).1
      contradiction
    refine iteInduction (fun start _ _ same => ?_) fun _ _ _ failed => ?_
    · simp only [Option.some.injEq,Prod.mk.injEq] at same
      exact ⟨start,(keywordIdent same.1).symm⟩
    · contradiction
  exact whole name after read

theorem firstIdent {cs after : List Char} {name : String} (read : first u cs = some (.ident name,after)) :
    Word u name (.ident name) := by
  unfold first at read
  split at read
  · contradiction
  · rename_i ch rest shape
    have black := dropTriviaHead shape
    have ⟨start,spelled⟩ := scanIdent read
    have follows := namedContinues start
    rw [List.takeWhile_cons_of_pos follows] at spelled
    rw [scanName start,List.takeWhile_cons_of_pos follows,← spelled] at read
    have text : name.toList = ch :: rest.takeWhile (continues u) := by rw [spelled,String.toList_ofList]
    refine ⟨⟨ch,_,text,start,black⟩,?_,(Prod.mk.inj (Option.some.inj read)).1⟩
    rw [text]
    exact List.forall_mem_cons.mpr ⟨follows,fun c mem => List.mem_takeWhile_imp mem⟩

theorem lexesNames {cs : List Char} {kinds : List TokenKind} (lexes : Lexes u cs kinds) :
    ∀ name, .ident name ∈ kinds → Word u name (.ident name) := by
  induction lexes with
  | done => simp
  | @token cs kind after kinds read _ ih =>
    intro name mem
    rcases List.mem_cons.mp mem with rfl | later
    · exact firstIdent read
    · exact ih name later

end Lexer
end RootCause.Dsl
