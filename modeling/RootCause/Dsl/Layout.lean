import RootCause.Dsl.Language

/-! Where the tokens of a file lie. A run of the lexer takes its source apart into blank
text and the texts of the tokens, and the spans are the byte offsets of these. -/
namespace RootCause.Dsl

theorem utf8LengthAppend (cs ds : List Char) : utf8Length (cs ++ ds) = utf8Length cs + utf8Length ds := by
  have shifted (ds : List Char) (n : Nat) : ds.foldl (fun n c => n + c.utf8Size) n = n + utf8Length ds := by
    unfold utf8Length
    induction ds generalizing n with
    | nil => rfl
    | cons c ds ih => rw [List.foldl_cons,List.foldl_cons,ih,ih (0 + c.utf8Size),Nat.zero_add,Nat.add_assoc]
  rw [utf8Length,List.foldl_append,shifted]
  rfl

theorem utf8LengthCons (c : Char) (cs : List Char) : utf8Length (c :: cs) = c.utf8Size + utf8Length cs := by
  rw [← List.singleton_append,utf8LengthAppend]
  simp [utf8Length]

/- `str::get` with a range of byte offsets: none off a character boundary. -/
def dropBytes : Nat → List Char → Option (List Char)
  | 0, cs => some cs
  | _ + 1, [] => none
  | n + 1, c :: cs => if c.utf8Size ≤ n + 1 then dropBytes (n + 1 - c.utf8Size) cs else none

def takeBytes : Nat → List Char → Option (List Char)
  | 0, _ => some []
  | _ + 1, [] => none
  | n + 1, c :: cs =>
    if c.utf8Size ≤ n + 1 then (takeBytes (n + 1 - c.utf8Size) cs).map (List.cons c) else none

def Span.text (span : Span) (source : String) : Option String :=
  if span.start ≤ span.stop then do
    let rest ← dropBytes span.start.toNat source.toList
    let taken ← takeBytes (span.stop.toNat - span.start.toNat) rest
    some (String.ofList taken)
  else none

theorem bytesCut (cs ds : List Char) : dropBytes (utf8Length cs) (cs ++ ds) = some ds ∧
    takeBytes (utf8Length cs) (cs ++ ds) = some cs := by
  induction cs with
  | nil =>
    have zero : utf8Length [] = 0 := rfl
    rw [zero,dropBytes.eq_def,takeBytes.eq_def]
    exact ⟨rfl,rfl⟩
  | cons c cs ih =>
    have room : c.utf8Size ≤ c.utf8Size + utf8Length cs := Nat.le_add_right _ _
    have left : c.utf8Size + utf8Length cs - c.utf8Size = utf8Length cs := Nat.add_sub_cancel_left _ _
    rw [utf8LengthCons,List.cons_append]
    have positive : 0 < c.utf8Size := c.utf8Size_pos
    obtain ⟨m,count⟩ : ∃ m, c.utf8Size + utf8Length cs = m + 1 := Nat.exists_eq_add_one.mpr (by omega)
    rw [count] at room left ⊢
    rw [dropBytes,takeBytes,if_pos room,if_pos room,left,ih.1,ih.2]
    exact ⟨rfl,rfl⟩

namespace Lexer
variable {u : UnicodeClasses}

def stop (l : Lexer) : Nat := l.pos + utf8Length l.rest

theorem consumeStop {l : Lexer} {taken rest : List Char} (split : taken ++ rest = l.rest) :
    (l.consume taken rest).stop = l.stop := by
  rw [stop,stop,← split,utf8LengthAppend,← Nat.add_assoc]
  rfl

theorem singleStop (l : Lexer) : l.single.stop = l.stop := consumeStop (List.take_append_drop 1 _)

theorem stringBodyStop {start pos : Nat} {tokens : List Token} {rest value : List Char} {kind after}
    (read : stringBody start tokens rest pos value = .ok (kind,after)) :
    after.stop = pos + utf8Length rest := by
  fun_induction stringBody start tokens rest pos value with
  | case3 =>
    cases read
    rw [stop,utf8LengthCons,Nat.add_assoc]
  | case5 pos value e rest decoded escaped _ _ ih =>
    rw [ih read,utf8LengthCons,utf8LengthCons]
    omega
  | case7 c rest pos value newline quote backslash ih =>
    rw [ih read,utf8LengthCons]
    omega
  | _ => contradiction

theorem lexemeStop {l after : Lexer} {ch kind} (read : l.lexeme u ch = .ok (kind,after)) : after.stop = l.stop :=
  lexemeKeeps stop (fun _ _ _ split => consumeStop split)
    (fun read => (stringBodyStop read).trans (singleStop l)) read

theorem lexemeText {l after : Lexer} {ch : Char} {rest : List Char} {kind} (here : l.rest = ch :: rest)
    (black : isWhitespace ch = false) (read : l.lexeme u ch = .ok (kind,after)) :
    ∃ form text, l.rest = text ++ after.rest ∧ TokenText u.letters form text kind ∧
      Ends u.letters form after.rest ∧ after.pos = l.pos + utf8Length text := by
  have scanned : scan u ch (ch :: rest) = some (kind,after.rest) := by
    rw [← here,← lexemeScan,read]
    rfl
  obtain ⟨form,text,shape,token,ends⟩ := scanSound black scanned
  rw [← here] at shape
  have total := lexemeStop read
  rw [stop,stop,shape,utf8LengthAppend] at total
  exact ⟨form,text,shape,token,ends,by omega⟩

/- The tokens that a run gives for the characters from an offset on: their texts, with
blank text in front of each, and their spans. -/
inductive Laid (u : UnicodeClasses) : Nat → List Char → List Token → Prop where
  | done {pos gap} (blank : Blank true gap) :
      Laid u pos gap [⟨.eof,.ofOffsets (pos + utf8Length gap) (pos + utf8Length gap)⟩]
  | token {pos gap form text rest kind tokens} (blank : Blank false gap)
      (token : TokenText u.letters form text kind) (ends : Ends u.letters form rest)
      (later : Laid u (pos + utf8Length gap + utf8Length text) rest tokens) :
      Laid u pos (gap ++ (text ++ rest))
        (⟨kind,.ofOffsets (pos + utf8Length gap) (pos + utf8Length gap + utf8Length text)⟩ :: tokens)

theorem runLaid {fuel : Nat} {l : Lexer} {tokens : List Token} (lexed : run u fuel l = some (.ok tokens)) :
    ∃ own, tokens = l.tokens ++ own ∧ Laid u l.pos l.rest own := by
  induction fuel generalizing l with
  | zero => contradiction
  | succ fuel ih =>
    have blank : Blank l.skipWhitespaceAndComments.rest.isEmpty (l.rest.take (triviaLength false l.rest)) :=
      triviaBlank l.rest
    have whole : l.rest.take (triviaLength false l.rest) ++ l.skipWhitespaceAndComments.rest = l.rest :=
      List.take_append_drop _ _
    have moved : l.skipWhitespaceAndComments.pos =
        l.pos + utf8Length (l.rest.take (triviaLength false l.rest)) := rfl
    have before : l.skipWhitespaceAndComments.tokens = l.tokens := rfl
    have start {ch : Char} {rest : List Char} (here : l.skipWhitespaceAndComments.rest = ch :: rest) :
        isWhitespace ch = false := dropTriviaHead here
    simp only [run] at lexed
    -- From here on only where the gap ends and what it holds matters.
    generalize l.skipWhitespaceAndComments = s at lexed blank whole moved before start
    generalize l.rest.take (triviaLength false l.rest) = gap at blank whole moved
    split at lexed
    · rename_i empty
      cases lexed
      rw [empty,List.isEmpty_nil] at blank
      rw [empty,List.append_nil] at whole
      rw [← whole,before,moved]
      exact ⟨_,rfl,.done blank⟩
    · rename_i ch rest here
      split at lexed
      · simp at lexed
      · rename_i kind after read
        obtain ⟨own,rfl,later⟩ := ih lexed
        obtain ⟨form,text,shape,token,ends,offset⟩ := lexemeText here (start here) read
        rw [moved] at offset
        rw [here,List.isEmpty_cons] at blank
        rw [← whole,shape]
        simp only [offset] at later
        refine ⟨_,?_,.token blank token ends later⟩
        rw [lexemeTokens read,before,offset,moved,List.append_assoc]
        rfl

theorem narrowed {n : Nat} (small : n < UInt32.size) : (UInt32.ofNat n).toNat = n := UInt32.toNat_ofNat_of_lt' small

theorem spanText {left text right : List Char} (small : utf8Length (left ++ (text ++ right)) < UInt32.size) :
    (Span.ofOffsets (utf8Length left) (utf8Length left + utf8Length text)).text
      (String.ofList (left ++ (text ++ right))) = some (String.ofList text) := by
  rw [utf8LengthAppend,utf8LengthAppend] at small
  have start := narrowed (n := utf8Length left) (by omega)
  have stop := narrowed (n := utf8Length left + utf8Length text) (by omega)
  have ordered : UInt32.ofNat (utf8Length left) ≤ UInt32.ofNat (utf8Length left + utf8Length text) := by
    rw [UInt32.le_iff_toNat_le,start,stop]
    exact Nat.le_add_right _ _
  simp only [Span.text,Span.ofOffsets,if_pos ordered,start,stop,String.toList_ofList,(bytesCut left _).1,
    Nat.add_sub_cancel_left,(bytesCut text right).2,bind,Option.bind]

structure Placed (u : UnicodeClasses) (source : List Char) (t : Token) (left text right : List Char) : Prop where
  split : source = left ++ (text ++ right)
  span : t.span = .ofOffsets (utf8Length left) (utf8Length left + utf8Length text)
  lexeme : t.kind = .eof ∧ text = [] ∨ t.kind ≠ .eof ∧ ∃ form, TokenText u.letters form text t.kind

variable {pos : Nat} {cs : List Char} {tokens : List Token}

theorem textKind {a : Letters} {form : TokenClass} {text : List Char} {kind : TokenKind}
    (token : TokenText a form text kind) : kind ≠ .eof := by
  cases token with
  | mark mem =>
    rintro rfl
    simp [punctuation] at mem
  | name _ _ =>
    unfold keyword
    split <;> simp
  | number _ _ _ => simp
  | quoted _ => simp

theorem laidPlaced (laid : Laid u pos cs tokens) {before : List Char} (here : pos = utf8Length before) :
    ∀ t ∈ tokens, ∃ left text right, Placed u (before ++ cs) t left text right := by
  induction laid generalizing before with
  | @done pos gap blank =>
    intro t mem
    cases List.mem_singleton.mp mem
    refine ⟨before ++ gap,[],[],by simp,?_,.inl ⟨rfl,rfl⟩⟩
    rw [utf8LengthAppend,here]
    rfl
  | @token pos gap form text rest kind tokens blank token ends later ih =>
    intro t mem
    rcases List.mem_cons.mp mem with rfl | mem
    · refine ⟨before ++ gap,text,rest,by simp,?_,.inr ⟨textKind token,form,token⟩⟩
      rw [utf8LengthAppend,here]
    · have next := @ih (before ++ (gap ++ text)) (by simp only [utf8LengthAppend,here,Nat.add_assoc]) t mem
      simpa only [List.append_assoc] using next

theorem textPositive {a : Letters} {form : TokenClass} {text : List Char} {kind : TokenKind}
    (token : TokenText a form text kind) : 0 < utf8Length text := by
  have nonempty : text ≠ [] := by
    cases token with
    | @number negative digits value some _ _ => exact List.append_ne_nil_of_right_ne_nil _ some
    | _ => exact List.cons_ne_nil _ _
  obtain ⟨c,rest,rfl⟩ := List.exists_cons_of_ne_nil nonempty
  rw [utf8LengthCons]
  exact Nat.add_pos_left c.utf8Size_pos _

theorem laidBeyond (laid : Laid u pos cs tokens) (small : pos + utf8Length cs < UInt32.size) :
    ∀ t ∈ tokens, pos ≤ t.span.start.toNat := by
  induction laid with
  | done blank =>
    intro t mem
    cases List.mem_singleton.mp mem
    exact Nat.le_trans (Nat.le_add_right _ _) (Nat.le_of_eq (narrowed small).symm)
  | @token pos gap form text rest kind tokens blank token ends later ih =>
    rw [utf8LengthAppend,utf8LengthAppend] at small
    refine List.forall_mem_cons.mpr ⟨?_,fun t mem => ?_⟩
    · exact Nat.le_trans (Nat.le_add_right _ _) (Nat.le_of_eq (narrowed (by omega)).symm)
    · have beyond := ih (by omega) t mem
      omega

theorem laidOrdered (laid : Laid u pos cs tokens) (small : pos + utf8Length cs < UInt32.size) :
    tokens.Pairwise fun s t => s.span.start < t.span.start ∧ s.span.stop ≤ t.span.start := by
  induction laid with
  | done blank => exact List.pairwise_singleton _ _
  | @token pos gap form text rest kind tokens blank token ends later ih =>
    rw [utf8LengthAppend,utf8LengthAppend] at small
    refine List.pairwise_cons.mpr ⟨fun t mem => ?_,ih (by omega)⟩
    have beyond := laidBeyond later (by omega) t mem
    have positive := textPositive token
    have start := narrowed (n := pos + utf8Length gap) (by omega)
    have stop := narrowed (n := pos + utf8Length gap + utf8Length text) (by omega)
    rw [UInt32.lt_iff_toNat_lt,UInt32.le_iff_toNat_le]
    simp only [Span.ofOffsets,start,stop]
    omega

def BlankBetween (source : String) : UInt32 → List Token → Prop
  | _, [] => True
  | stop, t :: rest => (∃ gap last, Span.text ⟨stop,t.span.start⟩ source = some gap ∧ Blank last gap.toList) ∧
    BlankBetween source t.span.stop rest

theorem laidBetween (laid : Laid u pos cs tokens) {before : List Char} (here : pos = utf8Length before)
    (small : utf8Length (before ++ cs) < UInt32.size) :
    BlankBetween (String.ofList (before ++ cs)) (UInt32.ofNat pos) tokens := by
  subst here
  generalize offset : utf8Length before = pos at laid
  induction laid generalizing before with
  | @done pos gap blank =>
    subst offset
    refine ⟨⟨String.ofList gap,true,?_,by rwa [String.toList_ofList]⟩,trivial⟩
    have cut := @spanText before gap [] (by rwa [List.append_nil])
    rwa [List.append_nil] at cut
  | @token pos gap form text rest kind tokens blank token ends later ih =>
    subst offset
    refine ⟨⟨String.ofList gap,false,spanText small,by rwa [String.toList_ofList]⟩,?_⟩
    have next := @ih (before ++ (gap ++ text)) (by simpa only [List.append_assoc] using small)
      (by simp only [utf8LengthAppend,Nat.add_assoc])
    simp only [List.append_assoc] at next
    exact next

theorem blankStart {last : Bool} {c : Char} {rest : List Char} (blank : Blank last (c :: rest)) :
    isWhitespace c = true ∨ c = '/' := by
  cases blank with
  | white white _ => exact .inl white
  | comment _ _ => exact .inr rfl
  | trailing _ => exact .inr rfl

theorem laidNothing (laid : Laid u pos [] tokens) : tokens = [⟨.eof,.ofOffsets pos pos⟩] := by
  generalize empty : [] = cs at laid
  cases laid with
  | done blank =>
    subst empty
    rfl
  | token blank token ends later =>
    have positive := textPositive token
    obtain ⟨_,rest⟩ := List.append_eq_nil_iff.mp empty.symm
    rw [(List.append_eq_nil_iff.mp rest).1] at positive
    contradiction

theorem firstAlone {form : TokenClass} {text : List Char} {kind : TokenKind}
    (token : TokenText u.letters form text kind) : first u text = some (kind,[]) :=
  firstIff.mpr ⟨[],form,text,by simp,.none,token,by cases form <;> simp [Ends]⟩

theorem laidAlone {form : TokenClass} {text : List Char} {kind : TokenKind}
    (token : TokenText u.letters form text kind) (laid : Laid u 0 text tokens) :
    tokens = [⟨kind,.ofOffsets 0 (utf8Length text)⟩,
      ⟨.eof,.ofOffsets (utf8Length text) (utf8Length text)⟩] := by
  have alone := firstAlone token
  obtain ⟨c,chars,shape,black,slash⟩ := textStart token (wideStart u)
  have visible {last : Bool} {gap tail : List Char} (blank : Blank last gap) (same : text = gap ++ tail) :
      gap = [] := by
    cases gap with
    | nil => rfl
    | cons d gap =>
      rw [shape] at same
      obtain ⟨rfl,_⟩ := List.cons.inj same
      rcases blankStart blank with white | comment
      · rw [black] at white
        contradiction
      · exact absurd comment slash
  cases laid with
  | done blank =>
    rw [visible blank (List.append_nil _).symm] at shape
    contradiction
  | @token _ gap form' text' rest kind' tokens' blank token' ends later =>
    have own := alone.symm.trans (firstIff.mpr ⟨gap,form',text',rfl,blank,token',ends⟩)
    cases visible blank rfl
    cases own
    rw [laidNothing later]
    have zero : utf8Length [] = 0 := rfl
    simp only [List.nil_append,List.append_nil,zero,Nat.zero_add]

theorem tokenizeAlone {form : TokenClass} {text : List Char} {kind : TokenKind}
    (token : TokenText u.letters form text kind) : tokenize u (String.ofList text) =
      some (.ok [⟨kind,.ofOffsets 0 (utf8Length text)⟩,
        ⟨.eof,.ofOffsets (utf8Length text) (utf8Length text)⟩]) := by
  have lexes : Lexes u (String.ofList text).toList [kind,.eof] := by
    rw [String.toList_ofList]
    exact .token (firstAlone token) (.done rfl)
  obtain ⟨tokens,lexed,_⟩ := tokenizeLexes.mpr lexes
  obtain ⟨own,same,laid⟩ := runLaid lexed
  have start : (new (String.ofList text)).rest = text := String.toList_ofList
  rw [start] at laid
  rw [lexed,same,laidAlone token laid]
  rfl

def OnBoundary (source : String) (offset : UInt32) : Prop :=
  ∃ before after, source.toList = before ++ after ∧ offset.toNat = utf8Length before

/- Lexing has lost nothing of the source. -/
structure Lossless (u : UnicodeClasses) (source : String) (tokens : List Token) : Prop where
  ending : ∃ inner e, tokens = inner ++ [e] ∧ e.kind = .eof ∧ ∀ t ∈ inner, t.kind ≠ .eof
  boundaries : ∀ t ∈ tokens, OnBoundary source t.span.start ∧ OnBoundary source t.span.stop
  increasing : tokens.Pairwise fun s t => s.span.start < t.span.start
  disjoint : tokens.Pairwise fun s t => s.span.stop ≤ t.span.start
  between : BlankBetween source 0 tokens
  again : ∀ t ∈ tokens, t.kind ≠ .eof → ∃ text, t.span.text source = some text ∧
    tokenize u text = some (.ok [⟨t.kind,.ofOffsets 0 (utf8Length text.toList)⟩,
      ⟨.eof,.ofOffsets (utf8Length text.toList) (utf8Length text.toList)⟩])

theorem laidEnding (laid : Laid u pos cs tokens) :
    ∃ inner e, tokens = inner ++ [e] ∧ e.kind = .eof ∧ ∀ t ∈ inner, t.kind ≠ .eof := by
  induction laid with
  | done blank => exact ⟨[],_,rfl,rfl,by simp⟩
  | token blank token ends later ih =>
    obtain ⟨inner,e,rfl,eof,others⟩ := ih
    exact ⟨_ :: inner,e,rfl,eof,List.forall_mem_cons.mpr ⟨textKind token,others⟩⟩

theorem tokenizeLossless {source : String} {tokens : List Token}
    (small : utf8Length source.toList < UInt32.size) (lexed : tokenize u source = some (.ok tokens)) :
    Lossless u source tokens := by
  obtain ⟨own,same,laid⟩ := runLaid lexed
  have laid : Laid u 0 source.toList tokens := by
    rw [same]
    exact laid
  have total : 0 + utf8Length source.toList < UInt32.size := by rwa [Nat.zero_add]
  have placed := @laidPlaced _ _ _ _ laid [] rfl
  have ordered := laidOrdered laid total
  have between := @laidBetween _ _ _ _ laid [] rfl small
  rw [List.nil_append,String.ofList_toList] at between
  refine ⟨laidEnding laid,?_,ordered.imp fun both => both.1,ordered.imp fun both => both.2,between,?_⟩
  · intro t mem
    obtain ⟨left,text,right,place⟩ := placed t mem
    have split : source.toList = left ++ (text ++ right) := place.split
    rw [split,utf8LengthAppend,utf8LengthAppend] at small
    rw [place.span]
    refine ⟨⟨left,text ++ right,split,narrowed (by omega)⟩,⟨left ++ text,right,by rw [split,List.append_assoc],?_⟩⟩
    rw [utf8LengthAppend]
    exact narrowed (by omega)
  · intro t mem visible
    obtain ⟨left,text,right,place⟩ := placed t mem
    have split : source.toList = left ++ (text ++ right) := place.split
    obtain ⟨_,form,token⟩ := place.lexeme.resolve_left fun eof => visible eof.1
    refine ⟨String.ofList text,?_,?_⟩
    · rw [split] at small
      rw [place.span,← String.ofList_toList (s := source),split]
      exact spanText small
    · rw [String.toList_ofList]
      exact tokenizeAlone token

def spacedSource : String := "a: \"\\n\" // b"

theorem tokenizeLosslessSpaced : ∃ tokens, tokenize .ascii spacedSource = some (.ok tokens) ∧
    tokens.map Token.kind = [.ident "a",.colon,.stringLit "\n",.eof] ∧ Lossless .ascii spacedSource tokens := by
  have run : utf8Length spacedSource.toList < UInt32.size ∧
      ∃ tokens ∈ (tokenize .ascii spacedSource).bind Except.toOption,
        tokens.map Token.kind = [.ident "a",.colon,.stringLit "\n",.eof] := by
    rw [show spacedSource = String.ofList _ from rfl,tokenize,new,String.toList_ofList]
    decide +kernel
  obtain ⟨small,tokens,found,kinds⟩ := run
  obtain ⟨result,lexed,ok⟩ := Option.bind_eq_some_iff.mp found
  rw [Library.toOptionOk] at ok
  rw [ok] at lexed
  exact ⟨tokens,lexed,kinds,tokenizeLossless small lexed⟩

end Lexer
end RootCause.Dsl
