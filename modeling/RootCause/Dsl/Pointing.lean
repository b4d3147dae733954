import RootCause.Dsl.Alphabet
import RootCause.Dsl.Locations

/-! The spans inside a file: between two of its characters, and in order. The lexer and
the parser report these, and a reader is shown the text and the place that they cover. -/
namespace RootCause.Dsl
open Ast ParserM Library

variable {u : UnicodeClasses} {source : String}

structure Pointed (source : String) (span : Span) (before text after : List Char) : Prop where
  split : source.toList = before ++ (text ++ after)
  start : span.start.toNat = utf8Length before
  covered : span.text source = some (String.ofList text)
  line : (span.lineCol source).1.toNat = lineAfter before
  column : (span.lineCol source).2.toNat = columnAfter before

structure Inside (source : String) (span : Span) : Prop where
  start : Lexer.OnBoundary source span.start
  stop : Lexer.OnBoundary source span.stop
  ordered : span.start ≤ span.stop

theorem Inside.merge {s t : Span} (one : Inside source s) (other : Inside source t) : Inside source (s.merge t) := by
  have least : (s.merge t).start = if s.start ≤ t.start then s.start else t.start := rfl
  have most : (s.merge t).stop = if s.stop ≤ t.stop then t.stop else s.stop := rfl
  have first := one.ordered
  have second := other.ordered
  refine ⟨?_,?_,?_⟩
  · rw [least]
    exact iteInduction (fun _ => one.start) fun _ => other.start
  · rw [most]
    exact iteInduction (fun _ => other.stop) fun _ => one.stop
  · rw [least,most]
    simp only [UInt32.le_iff_toNat_le] at first second ⊢
    split <;> split <;> omega

theorem insideOffsets {left text right : List Char} (split : source.toList = left ++ (text ++ right))
    (small : utf8Length source.toList < UInt32.size) :
    Inside source (.ofOffsets (utf8Length left) (utf8Length left + utf8Length text)) := by
  rw [split,utf8LengthAppend,utf8LengthAppend] at small
  have start := Lexer.narrowed (n := utf8Length left) (by omega)
  have stop := Lexer.narrowed (n := utf8Length left + utf8Length text) (by omega)
  refine ⟨⟨left,_,split,start⟩,⟨left ++ text,right,by rw [split,List.append_assoc],?_⟩,?_⟩
  · rw [utf8LengthAppend]
    exact stop
  · rw [UInt32.le_iff_toNat_le]
    simp only [Span.ofOffsets,start,stop]
    exact Nat.le_add_right _ _

theorem Inside.pointed {span : Span} (inside : Inside source span)
    (small : utf8Length source.toList + 1 < UInt32.size) :
    ∃ before text after, Pointed source span before text after := by
  obtain ⟨before,rest,split,start⟩ := inside.start
  obtain ⟨front,after,cut,stop⟩ := inside.stop
  have ordered := UInt32.le_iff_toNat_le.mp inside.ordered
  rw [start,stop] at ordered
  have first : before <+: source.toList := ⟨rest,split.symm⟩
  have second : front <+: source.toList := ⟨after,cut.symm⟩
  obtain ⟨text,rfl⟩ : before <+: front := by
    rcases List.prefix_or_prefix_of_prefix first second with shorter | ⟨more,rfl⟩
    · exact shorter
    · cases more with
      | nil => simp
      | cons c more =>
        have positive : 0 < c.utf8Size := c.utf8Size_pos
        rw [utf8LengthAppend,utf8LengthCons] at ordered
        omega
  rw [List.append_assoc] at cut
  obtain ⟨line,column⟩ := lineColExact cut start small
  refine ⟨before,text,after,cut,start,?_,line,column⟩
  have narrow : utf8Length (before ++ (text ++ after)) < UInt32.size := by
    rw [← cut]
    omega
  have covered := Lexer.spanText narrow
  have same : span = .ofOffsets (utf8Length before) (utf8Length before + utf8Length text) := by
    rw [← utf8LengthAppend,← start,← stop,Span.ofOffsets,UInt32.ofNat_toNat,UInt32.ofNat_toNat]
  rwa [← cut,String.ofList_toList,← same] at covered

namespace Lexer

def UpTo (start pos : Nat) (rest : List Char) (d : Diagnostic) : Prop :=
  ∃ text after, rest = text ++ after ∧ d.location = .ofOffsets start (pos + utf8Length text)

variable {start pos : Nat} {rest : List Char} {d : Diagnostic}

theorem UpTo.behind {read : List Char} {n : Nat} (upTo : UpTo start n rest d) (moved : n = pos + utf8Length read) :
    UpTo start pos (read ++ rest) d := by
  obtain ⟨text,after,rfl,here⟩ := upTo
  refine ⟨read ++ text,after,(List.append_assoc ..).symm,?_⟩
  rw [here,moved,utf8LengthAppend,Nat.add_assoc]

theorem upToHere {read : List Char} {n : Nat} (location : d.location = .ofOffsets start n)
    (moved : n = pos + utf8Length read) : UpTo start pos (read ++ rest) d := by
  subst moved
  exact ⟨read,rest,rfl,location⟩

theorem pairLength (c e : Char) : pos + c.utf8Size + e.utf8Size = pos + utf8Length [c,e] := by
  rw [Nat.add_assoc,utf8LengthCons,utf8LengthCons]
  rfl

theorem singleLength (c : Char) : utf8Length [c] = c.utf8Size := Nat.zero_add _

theorem stringBodyUpTo {tokens : List Token} {value : List Char}
    (failed : stringBody start tokens rest pos value = .error d) : UpTo start pos rest d := by
  fun_induction stringBody start tokens rest pos value with
  | case1 pos =>
    cases failed
    exact ⟨[],[],rfl,rfl⟩
  | case2 rest pos value =>
    cases failed
    exact @upToHere _ _ _ _ ['\n'] _ rfl (by rw [singleLength])
  | case3 => contradiction
  | case4 pos value =>
    cases failed
    exact @upToHere _ _ [] _ ['\\'] _ rfl (by rw [singleLength])
  | case5 pos value e rest decoded escaped _ _ ih => exact @UpTo.behind _ _ _ _ ['\\',e] _ (ih failed) (pairLength _ _)
  | case6 pos value e rest =>
    cases failed
    exact @upToHere _ _ _ _ ['\\',e] _ rfl (pairLength _ _)
  | case7 c rest pos value newline quote backslash ih =>
    exact @UpTo.behind _ _ _ _ [c] _ (ih failed) (by rw [singleLength])

theorem numberUpTo {l : Lexer} (failed : l.numberLiteral = .error d) : UpTo l.pos l.pos l.rest d := by
  have signed : ∃ sign, l.rest = sign ++ (if l.rest.head? = some '-' then l.single else l).rest ∧
      (if l.rest.head? = some '-' then l.single else l).pos = l.pos + utf8Length sign := by
    split
    · exact ⟨l.rest.take 1,(List.take_append_drop 1 _).symm,rfl⟩
    · exact ⟨[],rfl,rfl⟩
  unfold numberLiteral at failed
  simp only at failed
  generalize (if l.rest.head? = some '-' then l.single else l) = after at failed signed
  obtain ⟨sign,shape,moved⟩ := signed
  have total : (after.consume (after.rest.takeWhile Char.isDigit) (after.rest.dropWhile Char.isDigit)).pos =
      l.pos + utf8Length (sign ++ after.rest.takeWhile Char.isDigit) := by
    rw [utf8LengthAppend,← Nat.add_assoc,← moved]
    rfl
  have whole : l.rest = (sign ++ after.rest.takeWhile Char.isDigit) ++ after.rest.dropWhile Char.isDigit := by
    rw [List.append_assoc,List.takeWhile_append_dropWhile,← shape]
  rw [whole]
  split at failed
  · cases failed
    exact upToHere rfl total
  · split at failed
    · contradiction
    · cases failed
      exact upToHere rfl total

theorem lexemeUpTo {l : Lexer} {ch : Char} (here : l.rest = ch :: rest) (failed : l.lexeme u ch = .error d) :
    UpTo l.pos l.pos l.rest d := by
  let reports (read : Except Diagnostic (TokenKind × Lexer)) : Prop :=
    ∀ d, read = .error d → UpTo l.pos l.pos l.rest d
  have read (r : TokenKind × Lexer) : reports (.ok r) := fun _ other => by contradiction
  have quoted : reports l.stringLiteral := by
    intro d failed
    have inner := stringBodyUpTo failed
    have cut := @UpTo.behind _ _ _ _ (l.rest.take 1) _ inner rfl
    rwa [show l.single.rest = l.rest.drop 1 from rfl,List.take_append_drop] at cut
  have whole : reports (l.lexeme u ch) := by
    unfold lexeme
    iterate 8 refine iteInduction (fun _ => read _) fun _ => ?_
    refine iteInduction (fun _ => quoted) fun _ => ?_
    refine iteInduction (fun _ _ => numberUpTo) fun _ => ?_
    refine iteInduction (fun _ => read _) fun _ _ same => ?_
    cases same
    rw [here]
    exact @upToHere _ _ _ _ [ch] _ rfl (by rw [singleLength])
  exact whole d failed

theorem runCovers {fuel : Nat} {l : Lexer} {before : List Char} (failed : run u fuel l = some (.error d))
    (here : l.pos = utf8Length before) : ∃ left text right, before ++ l.rest = left ++ (text ++ right) ∧
      d.location = .ofOffsets (utf8Length left) (utf8Length left + utf8Length text) := by
  induction fuel generalizing l before with
  | zero => contradiction
  | succ fuel ih =>
    have whole : l.rest.take (triviaLength false l.rest) ++ l.skipWhitespaceAndComments.rest = l.rest :=
      List.take_append_drop _ _
    have moved : l.skipWhitespaceAndComments.pos =
        l.pos + utf8Length (l.rest.take (triviaLength false l.rest)) := rfl
    have start {ch : Char} {rest : List Char} (first : l.skipWhitespaceAndComments.rest = ch :: rest) :
        isWhitespace ch = false := dropTriviaHead first
    simp only [run] at failed
    generalize l.skipWhitespaceAndComments = s at failed whole moved start
    generalize l.rest.take (triviaLength false l.rest) = gap at whole moved
    rw [here,← utf8LengthAppend] at moved
    rw [← whole,← List.append_assoc]
    split at failed
    · simp at failed
    · rename_i ch rest first
      split at failed
      · rename_i reported
        cases failed
        obtain ⟨text,right,shape,location⟩ := lexemeUpTo first reported
        rw [shape]
        rw [moved] at location
        exact ⟨_,text,right,rfl,location⟩
      · rename_i kind after read
        obtain ⟨_,text,shape,_,_,offset⟩ := lexemeText first (start first) read
        rw [shape,← List.append_assoc]
        have offset : after.pos = utf8Length (before ++ gap ++ text) := by
          rw [utf8LengthAppend,← moved,← offset]
        have later := ih failed offset
        exact later

theorem tokenizeInside (small : utf8Length source.toList < UInt32.size) (failed : tokenize u source = some (.error d)) :
    Inside source d.location := by
  obtain ⟨left,text,right,split,location⟩ := @runCovers _ _ _ _ [] failed rfl
  rw [location]
  exact insideOffsets split small

theorem tokensInside {tokens : List Token} (small : utf8Length source.toList < UInt32.size)
    (lexed : tokenize u source = some (.ok tokens)) : ∀ t ∈ tokens, Inside source t.span := by
  obtain ⟨own,rfl,laid⟩ := runLaid lexed
  intro t mem
  obtain ⟨left,text,right,placed⟩ := @laidPlaced _ _ _ _ laid [] rfl t mem
  rw [placed.span]
  exact insideOffsets placed.split small

end Lexer
end RootCause.Dsl
