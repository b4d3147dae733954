import RootCause.Dsl.Diagnostics

/-! The lexer over the characters still to be read and the byte offset reached.
The main loop has fuel; running out of it is kept apart from every result of
the source. -/
namespace RootCause.Dsl

inductive TokenKind where
  | ident (name : String)
  | stringLit (value : String)
  | intLit (value : Int64)
  | boolLit (value : Bool)
  | kwPattern | kwVersion | kwEvidence | kwRequired | kwOptional | kwConstraint
  | kwSequence | kwWithin | kwSameCall | kwAnd | kwOr | kwNot
  | lBrace | rBrace | lBracket | rBracket | lParen | rParen | colon | comma
  | eof
  deriving DecidableEq, Repr

structure Token where
  kind : TokenKind
  span : Span
  deriving DecidableEq, Repr

/- `char::is_alphabetic` and `char::is_numeric` are Unicode tables of the standard
library; on ASCII they are the letters and the decimal digits. -/
structure UnicodeClasses where
  isAlphabetic : Char → Bool
  isNumeric : Char → Bool
  asciiAlphabetic : ∀ c : Char, c.toNat < 128 → isAlphabetic c = c.isAlpha
  asciiNumeric : ∀ c : Char, c.toNat < 128 → isNumeric c = c.isDigit

def UnicodeClasses.ascii : UnicodeClasses :=
  ⟨Char.isAlpha,Char.isDigit,fun _ _ => rfl,fun _ _ => rfl⟩

def UnicodeClasses.isAlphanumeric (u : UnicodeClasses) (c : Char) : Bool :=
  u.isAlphabetic c || u.isNumeric c

/- `char::is_whitespace`: the property White_Space, whose members are fixed. -/
def isWhitespace (c : Char) : Bool :=
  (9 ≤ c.toNat && c.toNat ≤ 13) || (0x2000 ≤ c.toNat && c.toNat ≤ 0x200A) ||
    [0x20,0x85,0xA0,0x1680,0x2028,0x2029,0x202F,0x205F,0x3000].contains c.toNat

def utf8Length (cs : List Char) : Nat := cs.foldl (fun n c => n + c.utf8Size) 0

structure Lexer where
  rest : List Char
  pos : Nat
  tokens : List Token
  deriving DecidableEq, Repr

namespace Lexer

def new (source : String) : Lexer := ⟨source.toList,0,[]⟩

def consume (l : Lexer) (taken rest : List Char) : Lexer :=
  { l with rest := rest, pos := l.pos + utf8Length taken }

/- What `skip_whitespace_and_comments` passes over. Inside a comment the loop
stops before the newline, which is whitespace to the loop around it. -/
def triviaLength (inComment : Bool) : List Char → Nat
  | [] => 0
  | c :: rest =>
    if c = '\n' then triviaLength false rest + 1
    else if inComment then triviaLength true rest + 1
    else if isWhitespace c then triviaLength false rest + 1
    else if c = '/' ∧ rest.head? = some '/' then triviaLength true rest + 1
    else 0

def skipWhitespaceAndComments (l : Lexer) : Lexer :=
  let n := triviaLength false l.rest
  l.consume (l.rest.take n) (l.rest.drop n)

def single (l : Lexer) : Lexer := l.consume (l.rest.take 1) (l.rest.drop 1)

def keyword (text : String) : TokenKind :=
  match text with
  | "pattern" => .kwPattern
  | "version" => .kwVersion
  | "evidence" => .kwEvidence
  | "required" => .kwRequired
  | "optional" => .kwOptional
  | "constraint" => .kwConstraint
  | "sequence" => .kwSequence
  | "within" => .kwWithin
  | "same_call" => .kwSameCall
  | "AND" => .kwAnd
  | "OR" => .kwOr
  | "NOT" => .kwNot
  | "true" => .boolLit true
  | "false" => .boolLit false
  | other => .ident other

def identOrKeyword (u : UnicodeClasses) (l : Lexer) : TokenKind × Lexer :=
  let continues := fun c => u.isAlphanumeric c || c = '_'
  (keyword (String.ofList (l.rest.takeWhile continues)),
    l.consume (l.rest.takeWhile continues) (l.rest.dropWhile continues))

def parseI64 (negative : Bool) (digits : List Char) : Option Int64 :=
  let magnitude : Nat := digits.foldl (fun n c => 10 * n + (c.toNat - '0'.toNat)) 0
  let value : Int := if negative then -magnitude else magnitude
  if Int64.minValue.toInt ≤ value ∧ value ≤ Int64.maxValue.toInt then some (Int64.ofInt value)
  else none

def numberLiteral (l : Lexer) : Except Diagnostic (TokenKind × Lexer) :=
  let negative := l.rest.head? = some '-'
  let signed := if negative then l.single else l
  let digits := signed.rest.takeWhile Char.isDigit
  let done := signed.consume digits (signed.rest.dropWhile Char.isDigit)
  if digits.isEmpty then
    .error (.error (.ofOffsets l.pos done.pos) "number literal"
      "a `-` must be followed by at least one digit")
  else
    match parseI64 negative digits with
    | some value => .ok (.intLit value,done)
    | none => .error (.error (.ofOffsets l.pos done.pos)
        ("number literal `" ++ (if negative then "-" else "") ++ String.ofList digits ++ "`")
        "integer literal out of range or malformed")

def escape (c : Char) : Option Char :=
  if c = '"' then some '"' else if c = '\\' then some '\\'
  else if c = 'n' then some '\n' else if c = 't' then some '\t' else none

def stringBody (start : Nat) (tokens : List Token) :
    (rest : List Char) → (pos : Nat) → (value : List Char) → Except Diagnostic (TokenKind × Lexer)
  | [], pos, _ => .error (unterminated pos)
  | c :: rest, pos, value =>
    if c = '\n' then .error (unterminated (pos + c.utf8Size))
    else if c = '"' then .ok (.stringLit (String.ofList value),⟨rest,pos + c.utf8Size,tokens⟩)
    else if c = '\\' then
      match rest with
      | [] => .error (.error (.ofOffsets start (pos + c.utf8Size)) "string literal"
          "unterminated escape sequence at end of input")
      | e :: rest =>
        match escape e with
        | some decoded => stringBody start tokens rest (pos + c.utf8Size + e.utf8Size)
            (value ++ [decoded])
        | none => .error ((Diagnostic.error (.ofOffsets start (pos + c.utf8Size + e.utf8Size))
            ("escape sequence `\\" ++ String.ofList [e] ++ "`")
            "unknown escape sequence in string literal").withSuggestion
              "valid escapes are \\\", \\\\, \\n, and \\t")
    else stringBody start tokens rest (pos + c.utf8Size) (value ++ [c])
where
  unterminated (pos : Nat) : Diagnostic :=
    (Diagnostic.error (.ofOffsets start pos) "string literal"
      "unterminated string literal (missing closing `\"`)").withSuggestion
        "add a closing `\"` before the end of the line"

def stringLiteral (l : Lexer) : Except Diagnostic (TokenKind × Lexer) :=
  stringBody l.pos l.tokens l.single.rest l.single.pos []

def lexeme (u : UnicodeClasses) (l : Lexer) (ch : Char) : Except Diagnostic (TokenKind × Lexer) :=
  if ch = '\x7b' then .ok (.lBrace,l.single)
  else if ch = '\x7d' then .ok (.rBrace,l.single)
  else if ch = '[' then .ok (.lBracket,l.single)
  else if ch = ']' then .ok (.rBracket,l.single)
  else if ch = '(' then .ok (.lParen,l.single)
  else if ch = ')' then .ok (.rParen,l.single)
  else if ch = ':' then .ok (.colon,l.single)
  else if ch = ',' then .ok (.comma,l.single)
  else if ch = '"' then l.stringLiteral
  else if ch = '-' ∨ ch.isDigit then l.numberLiteral
  else if u.isAlphabetic ch ∨ ch = '_' then .ok (l.identOrKeyword u)
  else .error ((Diagnostic.error (.ofOffsets l.pos (l.pos + ch.utf8Size))
      ("character `" ++ String.ofList [ch] ++ "`")
      "unexpected character not part of any valid token").withSuggestion
        "remove this character, or check for a typo in a keyword or symbol")

def run (u : UnicodeClasses) : Nat → Lexer → Option (Except Diagnostic (List Token))
  | 0, _ => none
  | fuel + 1, l =>
    let l := l.skipWhitespaceAndComments
    match l.rest with
    | [] => some (.ok (l.tokens ++ [⟨.eof,.ofOffsets l.pos l.pos⟩]))
    | ch :: _ =>
      match l.lexeme u ch with
      | .error d => some (.error d)
      | .ok (kind,after) =>
        run u fuel { after with tokens := after.tokens ++ [⟨kind,.ofOffsets l.pos after.pos⟩] }

end Lexer

/- Every token takes a character, so this much fuel is enough. -/
def tokenize (u : UnicodeClasses) (source : String) : Option (Except Diagnostic (List Token)) :=
  Lexer.run u (source.toList.length + 1) (.new source)

end RootCause.Dsl
