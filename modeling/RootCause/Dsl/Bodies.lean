import RootCause.Dsl.Readings

/-! The sections of a pattern and the pattern as a whole. -/
namespace RootCause.Dsl
open Ast ParserM

variable {tokens : List Token} {p : Parser tokens} (ended : Ended tokens)

theorem ensuresRequireTwo {isAnd span} {items : List BoolExpr} :
    Ensures (requireTwo isAnd span items) p fun _ rest => rest = p.ahead := by
  unfold requireTwo
  split
  · exact ensuresPush rfl
  · exact ensuresPure rfl

theorem yieldsRequireTwo {isAnd span} {items : List BoolExpr} (two : 2 ≤ items.length) :
    Yields (requireTwo isAnd span items) p fun _ rest => rest = p.ahead := by
  rw [requireTwo,if_neg (Nat.not_lt.mpr two)]
  exact yieldsPure rfl

theorem ensuresStored {α : Type} {m : ParserM tokens α} {s : Sections} (written : α → Section)
    {good : α → Prop} (read : Ensures m p fun a rest => p.ahead = (written a).words ++ rest ∧ good a)
    (full : ∀ a, good a → (written a).Full) :
    Ensures (storeSection s m fun a => s.store (written a)) p fun next rest =>
      ∃ body : List Section, next.2 = body.foldl Sections.store s ∧
        p.ahead = body.flatMap Section.words ++ rest ∧ ∀ x ∈ body, x.Full := by
  refine read.attempt.bind fun o q found => ?_
  obtain ⟨a,rfl,here,fine⟩ := found
  exact ensuresPure ⟨[written a],rfl,by simpa using here,by simpa using full a fine⟩

theorem yieldsStored {α : Type} {m : ParserM tokens α} {s : Sections} (written : α → Section) {x : Section}
    {rest : List TokenKind} (read : Yields m p fun a after => (written a).bare = x.bare ∧ after = rest) :
    Yields (storeSection s m fun a => s.store (written a)) p fun next after =>
      next.1 = true ∧ (∃ y : Section, y.bare = x.bare ∧ next.2 = s.store y) ∧ after = rest := by
  refine read.attempt.bind fun o q found => ?_
  obtain ⟨a,rfl,same,after⟩ := found
  exact yieldsPure ⟨rfl,⟨written a,same,rfl⟩,after⟩

theorem yieldsSpan {t : Token} : Yields (spanOrPeek (some t)) p fun _ rest => rest = p.ahead :=
  yieldsPure rfl

section
include ended

theorem ensuresEvidenceSection : Ensures parseEvidenceSection p fun decls rest =>
    p.ahead = (Section.evidence decls).words ++ rest := by
  rw [evidenceLoop]
  refine (ensuresExpect ended (by simp)).bind fun _ q keyword => ?_
  refine (ensuresExpect ended (by simp)).bind fun _ r opened => ?_
  have longer {decls : List EvidenceDecl} {s : Parser tokens} {rest : List TokenKind}
      {next : Bool × List EvidenceDecl} (before : r.ahead = decls.flatMap EvidenceDecl.words ++ s.ahead)
      (read : ∃ d, next = (true,decls ++ [d]) ∧ s.ahead = d.words ++ rest) :
      r.ahead = next.2.flatMap EvidenceDecl.words ++ rest := by
    obtain ⟨d,rfl,read⟩ := read
    rw [before,read]
    simp
  refine Ensures.bind (.loop (fun decls rest =>
    r.ahead = decls.flatMap EvidenceDecl.words ++ rest) (fun decls s before => ?_) rfl) fun decls r' list => ?_
  · refine .peek fun kind rest here => ?_
    split
    · exact ensuresPure before
    · exact ensuresPure before
    · exact (ensuresDeclRound ended .required here).weaken fun _ _ => longer before
    · exact (ensuresDeclRound ended .optional here).weaken fun _ _ => longer before
    · exact ensuresError
  · refine (ensuresExpect ended (by simp)).bind fun _ _ close => ensuresPure ?_
    rw [keyword,opened,list,close]
    simp [Section.words]

theorem yieldsEvidenceSection {decls : List EvidenceDecl} {rest}
    (here : p.ahead = (Section.evidence decls).words ++ rest) :
    Yields parseEvidenceSection p fun found after =>
      found.map EvidenceDecl.bare = decls.map EvidenceDecl.bare ∧ after = rest := by
  rw [evidenceLoop]
  simp only [Section.words,List.cons_append,List.append_assoc,List.nil_append] at here
  refine (yieldsExpect ended here (by simp)).bind fun _ q opened => ?_
  refine (yieldsExpect ended opened (by simp)).bind fun _ r body => ?_
  refine Yields.bind (.items EvidenceDecl.words (fun done found =>
    found.map EvidenceDecl.bare = done.map EvidenceDecl.bare) (by simp [EvidenceDecl.words])
      (fun done d left found s _ kept here => ?_) (fun found s kept here => ?_) rfl body) fun found r' list => ?_
  · refine .peek here ?_
    have declared : Yields (declRound d.requiredness found) s fun next after =>
        next.1 = true ∧ next.2.map EvidenceDecl.bare = (done ++ [d]).map EvidenceDecl.bare ∧
          after = left.flatMap EvidenceDecl.words ++ .rBrace :: rest := by
      refine (yieldsDeclRound ended here).weaken fun next after read => ?_
      obtain ⟨e,rfl,same,last⟩ := read
      have longer : (found ++ [e]).map EvidenceDecl.bare = (done ++ [d]).map EvidenceDecl.bare := by
        rw [List.map_append,List.map_append,kept,List.map_singleton,List.map_singleton,same]
      exact ⟨rfl,longer,last⟩
    cases requiredness : d.requiredness with
    | required =>
      rw [requiredness] at declared
      exact declared
    | optional =>
      rw [requiredness] at declared
      exact declared
  · exact .peek here (yieldsPure ⟨rfl,kept,here⟩)
  · refine (yieldsExpect ended list.2 (by simp)).bind fun _ _ close => yieldsPure ?_
    exact ⟨list.1,close⟩

theorem ensuresBoolExpr {depth : Nat} :
    Ensures (parseBoolExpr depth) p fun e rest => p.ahead = e.words ++ rest := by
  induction depth generalizing p with
  | zero => exact ensuresOutOfFuel
  | succ depth ih =>
    have operands (isAnd : Bool) {kind : TokenKind} {q : Parser tokens} {start : Span}
        (word : kind = if isAnd then .kwAnd else .kwOr) (here : p.ahead = kind :: q.ahead) : Ensures (do
          let _ ← expect .lParen "boolean expression"
          let items ← commaList (parseBoolExpr depth) .rParen
          let close ← expect .rParen "boolean expression"
          let span := Span.merge start close.span
          requireTwo isAnd span items
          pure (if isAnd then BoolExpr.and items span else BoolExpr.or items span)) q fun e rest =>
        p.ahead = e.words ++ rest := by
      refine (ensuresExpect ended (by simp)).bind fun _ r opened => ?_
      refine (ensuresCommaList ended BoolExpr.words fun _ => ih).bind fun items r' list => ?_
      refine (ensuresExpect ended (by simp)).bind fun _ r close => ?_
      refine ensuresRequireTwo.bind fun _ _ two => ensuresPure ?_
      rw [here,opened,list,close,two,word]
      cases isAnd <;> simp [BoolExpr.words]
    refine .peek fun kind rest here => ?_
    split
    · refine .peekSpan fun start => (yieldsAdvance ended here (by simp)).ensures.bind fun _ q after => ?_
      exact operands true rfl (after ▸ here)
    · refine .peekSpan fun start => (yieldsAdvance ended here (by simp)).ensures.bind fun _ q after => ?_
      exact operands false rfl (after ▸ here)
    · refine .peekSpan fun start => (yieldsAdvance ended here (by simp)).ensures.bind fun _ q after => ?_
      refine (ensuresExpect ended (by simp)).bind fun _ r opened => ?_
      refine ih.attempt.bind fun inner r' read => ?_
      obtain ⟨e,rfl,read⟩ := read
      refine (ensuresExpect ended (by simp)).bind fun _ r close => ensuresPure ?_
      rw [here,← after,opened,read,close]
      simp [BoolExpr.words]
    · exact (ensuresIdent ended).bind fun name _ read => ensuresPure read
    · exact ensuresError

theorem yieldsBoolExpr {depth : Nat} {e : BoolExpr} {rest} (full : e.Full)
    (enough : e.words.length ≤ depth) (here : p.ahead = e.words ++ rest) :
    Yields (parseBoolExpr depth) p fun f after => f.bare = e.bare ∧ after = rest := by
  induction depth generalizing p e rest with
  | zero => cases e <;> simp [BoolExpr.words,SpannedString.word] at enough
  | succ depth ih =>
    -- `AND` and `OR` differ in the word in front and in the constructor.
    have operands (isAnd : Bool) {items : List BoolExpr} {span : Span} {q : Parser tokens} {start : Span}
        (two : 2 ≤ items.length) (each : ∀ e ∈ items, e.Full)
        (short : (commaWords (items.map BoolExpr.words)).length ≤ depth)
        (here : q.ahead = .lParen :: (commaWords (items.map BoolExpr.words) ++ .rParen :: rest)) : Yields (do
          let _ ← expect .lParen "boolean expression"
          let items ← commaList (parseBoolExpr depth) .rParen
          let close ← expect .rParen "boolean expression"
          let span := Span.merge start close.span
          requireTwo isAnd span items
          pure (if isAnd then BoolExpr.and items span else BoolExpr.or items span)) q fun f after =>
        f.bare = (if isAnd then BoolExpr.and items span else BoolExpr.or items span).bare ∧ after = rest := by
      refine (yieldsExpect ended here (by simp)).bind fun _ r opened => ?_
      have nonempty : items ≠ [] := by
        intro empty
        simp [empty] at two
      refine (yieldsCommaList ended BoolExpr.words nonempty (by simp) (fun e mem p rest here =>
        ih (each e mem) (Nat.le_trans (commaWordsMem (List.mem_map_of_mem mem)) short) here) opened).bind
          fun found r' list => ?_
      refine (yieldsExpect ended list.2 (by simp)).bind fun _ r close => ?_
      have count : 2 ≤ found.length := by
        have same := congrArg List.length list.1
        simp only [List.length_map] at same
        omega
      refine (yieldsRequireTwo count).bind fun _ s same => yieldsPure ⟨?_,same.trans close⟩
      cases isAnd <;> simp [BoolExpr.bare,list.1]
    cases full with
    | evidenceRef name =>
      refine .peek here ((yieldsIdent ended here).bind fun t q read => yieldsPure ?_)
      exact ⟨congrArg BoolExpr.evidenceRef read.1,read.2⟩
    | and two each =>
      simp only [BoolExpr.words,BoolExpr.wordsAllEq,List.cons_append,List.append_assoc,List.nil_append] at here
      refine .peek here (.peekSpan fun start => (yieldsAdvance ended here (by simp)).bind fun _ q after => ?_)
      refine operands true two each ?_ after
      simp [BoolExpr.words] at enough
      omega
    | or two each =>
      simp only [BoolExpr.words,BoolExpr.wordsAllEq,List.cons_append,List.append_assoc,List.nil_append] at here
      refine .peek here (.peekSpan fun start => (yieldsAdvance ended here (by simp)).bind fun _ q after => ?_)
      refine operands false two each ?_ after
      simp [BoolExpr.words] at enough
      omega
    | @not inner _ below =>
      simp only [BoolExpr.words,List.cons_append,List.append_assoc,List.nil_append] at here
      have short : inner.words.length ≤ depth := by
        simp [BoolExpr.words] at enough
        omega
      refine .peek here (.peekSpan fun start => (yieldsAdvance ended here (by simp)).bind fun _ q after => ?_)
      refine (yieldsExpect ended after (by simp)).bind fun _ r opened => ?_
      refine (ih below short opened).attempt.bind fun found r' read => ?_
      obtain ⟨f,rfl,same,rest⟩ := read
      refine (yieldsExpect ended rest (by simp)).bind fun _ r close => yieldsPure ?_
      exact ⟨by rw [BoolExpr.bare,BoolExpr.bare,same],close⟩

theorem ensuresConstraintSection {rest} (here : p.ahead = .kwConstraint :: rest) :
    Ensures parseConstraintSection p fun e after =>
      p.ahead = (Section.constraint e).words ++ after ∧ e.Full := by
  refine Ensures.also ?_ fun e q run clean => ?_
  · refine (yieldsAdvance ended here (by simp)).ensures.bind fun _ q after => ?_
    refine (ensuresExpect ended (by simp)).bind fun _ r colon => ?_
    refine (ensuresBoolExpr ended).weaken fun e last read => ?_
    rw [here,← after,colon,read]
    rfl
  · obtain ⟨_,_,_,run⟩ := runsBind run
    obtain ⟨_,_,_,run⟩ := runsBind run
    exact runsBoolExpr run clean

theorem yieldsConstraintSection {e : BoolExpr} {rest} (full : e.Full)
    (here : p.ahead = (Section.constraint e).words ++ rest) :
    Yields parseConstraintSection p fun f after => f.bare = e.bare ∧ after = rest := by
  have short : e.words.length ≤ loopFuel tokens := by
    have most : p.ahead.length ≤ tokens.length := aheadLength
    simp only [here,Section.words,List.length_append,List.length_cons] at most
    rw [loopFuel]
    omega
  refine (yieldsAdvance ended here (by simp)).bind fun _ q after => ?_
  refine (yieldsExpect ended after (by simp)).bind fun _ r colon => ?_
  exact yieldsBoolExpr ended full short colon

theorem ensuresSequenceSection : Ensures parseSequenceSection p fun s rest => p.ahead = s.words ++ rest := by
  refine .peekSpan fun start => (ensuresExpect ended (by simp)).bind fun _ q keyword => ?_
  refine (ensuresExpect ended (by simp)).bind fun _ r colon => ?_
  refine (ensuresExpect ended (by simp)).bind fun _ r' opened => ?_
  refine (ensuresCommaListUnless ended SpannedString.word fun _ => ensuresIdent ended).bind fun steps s list => ?_
  refine (ensuresExpect ended (by simp)).bind fun _ s' close => .peek fun kind rest here => ?_
  split
  · rename_i within
    cases within
    refine (yieldsAdvance ended here (by simp)).ensures.bind fun _ t after => ?_
    refine (ensuresExpect ended (by simp)).bind fun _ t' colon' => ?_
    refine (ensuresInt ended).bind fun value _ read => ensuresPure ?_
    rw [keyword,colon,opened,list,close,here,← after,colon',read]
    simp [SequenceConstraint.words,SequenceConstraint.window,listWords]
  · refine ensuresPure ?_
    rw [keyword,colon,opened,list,close]
    simp [SequenceConstraint.words,SequenceConstraint.window,listWords]

theorem yieldsSequenceSection {s : SequenceConstraint} {rest} (here : p.ahead = s.words ++ rest)
    (stops : ∀ after, rest ≠ .kwWithin :: after) :
    Yields parseSequenceSection p fun t after => t.bare = s.bare ∧ after = rest := by
  simp only [SequenceConstraint.words,listWords,List.cons_append,List.append_assoc,List.nil_append] at here
  refine .peekSpan fun start => (yieldsExpect ended here (by simp)).bind fun _ q keyword => ?_
  refine (yieldsExpect ended keyword (by simp)).bind fun _ r colon => ?_
  refine (yieldsExpect ended colon (by simp)).bind fun _ r' opened => ?_
  refine (yieldsCommaListUnless ended SpannedString.word (by simp) (fun s _ => ⟨_,_,rfl,by simp⟩)
    (fun s _ p rest here => yieldsIdent ended here) opened).bind fun steps s' list => ?_
  refine (yieldsExpect ended list.2 (by simp)).bind fun _ t close => ?_
  cases window : s.withinSeconds with
  | none =>
    rw [window] at close
    have close : t.ahead = rest := close
    have next := aheadHere (p := t)
    refine .peek next ?_
    rw [if_neg fun within => stops _ (by rw [← close,next,within])]
    exact yieldsPure ⟨by simp [SequenceConstraint.bare,window,list.1],close⟩
  | some within =>
    rw [window] at close
    refine .peek close ?_
    rw [if_pos rfl]
    refine (yieldsAdvance ended close (by simp)).bind fun _ t' after => ?_
    refine (yieldsExpect ended after (by simp)).bind fun _ t' colon' => ?_
    refine (yieldsInt ended colon').bind fun value _ read => yieldsPure ?_
    exact ⟨by simp [SequenceConstraint.bare,window,list.1,read.1],read.2⟩

theorem ensuresSameCallSection : Ensures parseSameCallSection p fun g rest => p.ahead = g.words ++ rest := by
  refine .peekSpan fun start => (ensuresExpect ended (by simp)).bind fun _ q keyword => ?_
  refine (ensuresExpect ended (by simp)).bind fun _ r colon => ?_
  refine (ensuresExpect ended (by simp)).bind fun _ r' opened => ?_
  refine (ensuresCommaListUnless ended SpannedString.word fun _ => ensuresIdent ended).bind fun members s list => ?_
  refine (ensuresExpect ended (by simp)).bind fun _ s' close => ensuresPure ?_
  rw [keyword,colon,opened,list,close]
  simp [SameCallConstraint.words,listWords]

theorem yieldsSameCallSection {g : SameCallConstraint} {rest} (here : p.ahead = g.words ++ rest) :
    Yields parseSameCallSection p fun h after => h.bare = g.bare ∧ after = rest := by
  simp only [SameCallConstraint.words,listWords,List.cons_append,List.append_assoc,List.nil_append] at here
  refine .peekSpan fun start => (yieldsExpect ended here (by simp)).bind fun _ q keyword => ?_
  refine (yieldsExpect ended keyword (by simp)).bind fun _ r colon => ?_
  refine (yieldsExpect ended colon (by simp)).bind fun _ r' opened => ?_
  refine (yieldsCommaListUnless ended SpannedString.word (by simp) (fun s _ => ⟨_,_,rfl,by simp⟩)
    (fun s _ p rest here => yieldsIdent ended here) opened).bind fun members s' list => ?_
  refine (yieldsExpect ended list.2 (by simp)).bind fun _ t close => yieldsPure ?_
  exact ⟨by rw [SameCallConstraint.bare,SameCallConstraint.bare,list.1],close⟩

theorem ensuresSection {s : Sections} : Ensures (parseSection s) p fun next rest =>
    ∃ body : List Section, next.2 = body.foldl Sections.store s ∧
      p.ahead = body.flatMap Section.words ++ rest ∧ ∀ x ∈ body, x.Full := by
  have free {α : Type} {m : ParserM tokens α} {words : α → List TokenKind}
      (read : Ensures m p fun a rest => p.ahead = words a ++ rest) :
      Ensures m p fun a rest => p.ahead = words a ++ rest ∧ True :=
    read.weaken fun a rest here => ⟨here,trivial⟩
  refine .peek fun kind rest here => ?_
  split
  · exact ensuresPure ⟨[],rfl,rfl,by simp⟩
  · exact ensuresPure ⟨[],rfl,rfl,by simp⟩
  · exact ensuresStored .evidence (free (ensuresEvidenceSection ended)) fun _ _ => trivial
  · exact ensuresStored .constraint (ensuresConstraintSection ended here) fun _ full => full
  · exact ensuresStored .sequence (free (ensuresSequenceSection ended)) fun _ _ => trivial
  · exact ensuresStored .sameCall (free (ensuresSameCallSection ended)) fun _ _ => trivial
  · exact ensuresStored .metadata (free (ensuresMetadataEntry ended)) fun _ _ => trivial
  · exact ensuresError

theorem yieldsSection {s : Sections} {x : Section} {rest} (full : x.Full)
    (here : p.ahead = x.words ++ rest) (stops : ∀ after, rest ≠ .kwWithin :: after) :
    Yields (parseSection s) p fun next after =>
      next.1 = true ∧ (∃ y : Section, y.bare = x.bare ∧ next.2 = s.store y) ∧ after = rest := by
  cases x with
  | metadata entry =>
    refine .peek here (yieldsStored .metadata ?_)
    exact (yieldsMetadataEntry ended here).weaken fun a _ read => ⟨congrArg Section.metadata read.1,read.2⟩
  | evidence decls =>
    refine .peek here (yieldsStored .evidence ?_)
    exact (yieldsEvidenceSection ended here).weaken fun a _ read => ⟨congrArg Section.evidence read.1,read.2⟩
  | constraint expr =>
    refine .peek here (yieldsStored .constraint ?_)
    exact (yieldsConstraintSection ended full here).weaken fun a _ read =>
      ⟨congrArg Section.constraint read.1,read.2⟩
  | sequence seq =>
    refine .peek here (yieldsStored .sequence ?_)
    exact (yieldsSequenceSection ended here stops).weaken fun a _ read =>
      ⟨congrArg Section.sequence read.1,read.2⟩
  | sameCall group =>
    refine .peek here (yieldsStored .sameCall ?_)
    exact (yieldsSameCallSection ended here).weaken fun a _ read => ⟨congrArg Section.sameCall read.1,read.2⟩

theorem ensuresPattern : Ensures parsePattern p fun ast rest => ∃ body,
    Reading p.ahead ast.id.value ast.version.value body rest ∧
      ast = (body.foldl Sections.store .empty).tree ast.id ast.version ast.span := by
  refine .peekSpan fun start => (ensuresExpect ended (by simp)).bind fun _ q keyword => ?_
  refine (ensuresIdent ended).bind fun id r named => ?_
  refine (ensuresExpect ended (by simp)).bind fun _ r' second => ?_
  refine (ensuresInt ended).bind fun version s numbered => ?_
  refine (ensuresExpect ended (by simp)).bind fun _ s' opened => ?_
  refine Ensures.bind (m := iterate _ _ _) (.loop (fun sections rest => ∃ body : List Section,
    sections = body.foldl Sections.store .empty ∧ s'.ahead = body.flatMap Section.words ++ rest ∧
      ∀ x ∈ body, x.Full) (fun sections t before => ?_) ⟨[],rfl,rfl,by simp⟩) fun sections t list => ?_
  · obtain ⟨body,rfl,here,full⟩ := before
    refine (ensuresSection ended).weaken fun next rest read => ?_
    obtain ⟨one,stored,here',full'⟩ := read
    refine ⟨body ++ one,by rw [stored,List.foldl_append],?_,List.forall_mem_append.mpr ⟨full,full'⟩⟩
    rw [here,here',List.flatMap_append,List.append_assoc]
  · obtain ⟨body,rfl,here,full⟩ := list
    refine (ensuresExpect ended (by simp)).attempt.bind fun endTok t' close => ?_
    obtain ⟨token,rfl,close⟩ := close
    refine yieldsSpan.ensures.bind fun endSpan _ same => ensuresPure ⟨body,⟨?_,full⟩,?_⟩
    · rw [keyword,named,second,numbered,opened,here,close,same]
      simp [headWords,SpannedString.word]
    · rfl

theorem yieldsPattern {id version body more} (reading : Reading p.ahead id version body more) :
    Yields parsePattern p fun ast rest => ast.bare = treeOf id version body ∧ rest = more := by
  obtain ⟨here,full⟩ := reading
  simp only [headWords,List.cons_append,List.nil_append] at here
  refine .peekSpan fun start => (yieldsExpect ended here (by simp)).bind fun _ q keyword => ?_
  refine (yieldsIdent ended (s := ⟨id,.startOfFile⟩) keyword).bind fun name r named => ?_
  refine (yieldsExpect ended named.2 (by simp)).bind fun _ r' second => ?_
  refine (yieldsInt ended (n := ⟨version,.startOfFile⟩) second).bind fun number s numbered => ?_
  refine (yieldsExpect ended numbered.2 (by simp)).bind fun _ s' opened => ?_
  refine Yields.bind (m := iterate _ _ _) (.items Section.words (fun done sections => ∃ ys : List Section,
    ys.map Section.bare = done.map Section.bare ∧ sections = ys.foldl Sections.store .empty)
      (fun x _ => ?_) (fun done x left sections t parts held here => ?_) (fun sections t held here => ?_)
      ⟨[],rfl,rfl⟩ opened) fun sections t list => ?_
  · obtain ⟨kind,rest,words,_⟩ := x.opens
    simp [words]
  · obtain ⟨ys,same,rfl⟩ := held
    have stops : ∀ after, left.flatMap Section.words ++ .rBrace :: more ≠ .kwWithin :: after := by
      intro after
      cases left with
      | nil => simp
      | cons next left =>
        obtain ⟨kind,rest,words,other⟩ := next.opens
        simp [words,other]
    refine (yieldsSection ended (full x (by simp [parts])) here stops).weaken fun next rest read => ?_
    obtain ⟨again,⟨y,alike,stored⟩,after⟩ := read
    refine ⟨again,⟨ys ++ [y],?_,by rw [stored,List.foldl_append,List.foldl_cons,List.foldl_nil]⟩,after⟩
    rw [List.map_append,List.map_append,same,List.map_singleton,List.map_singleton,alike]
  · exact .peek here (yieldsPure ⟨rfl,held,here⟩)
  · obtain ⟨⟨ys,same,rfl⟩,here⟩ := list
    refine (yieldsExpect ended here (by simp)).attempt.bind fun endTok t' close => ?_
    obtain ⟨token,rfl,close⟩ := close
    refine yieldsSpan.bind fun endSpan _ kept => yieldsPure ⟨?_,kept.trans close⟩
    have id' := congrArg SpannedString.value named.1
    have version' := congrArg SpannedInt.value numbered.1
    rw [← show name.value = id from id',← show number.value = version from version']
    exact treeOfBare same

end

end RootCause.Dsl
