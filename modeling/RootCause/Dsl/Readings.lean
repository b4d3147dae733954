import RootCause.Dsl.ParserRules

/-! The productions of the parser against the grammar: what each reads, and that it
reads whatever is written so. -/
namespace RootCause.Dsl
open Ast ParserM

variable {tokens : List Token} {p : Parser tokens} (ended : Ended tokens)
include ended

theorem ensuresMetadataValue :
    Ensures parseMetadataValue p fun v rest => p.ahead = v.words ++ rest := by
  refine .peek fun kind rest here => ?_
  split
  · refine (yieldsAdvance ended here (by simp)).ensures.bind fun _ q after => ?_
    refine (ensuresCommaListUnless ended SpannedString.quoted fun _ => ensuresString ended).bind
      fun items r list => ?_
    refine (ensuresExpect ended (by simp)).bind fun _ r' close => ensuresPure ?_
    rw [here,← after,list,close]
    simp [MetadataValue.words,listWords]
  · exact (ensuresString ended).bind fun _ _ read => ensuresPure read
  · exact (ensuresIdent ended).bind fun _ _ read => ensuresPure read
  · exact ensuresError

theorem yieldsMetadataValue {v : MetadataValue} {rest} (here : p.ahead = v.words ++ rest) :
    Yields parseMetadataValue p fun w after => w.bare = v.bare ∧ after = rest := by
  cases v with
  | ident name =>
    refine .peek here ((yieldsIdent ended here).bind fun t q read => yieldsPure ?_)
    exact ⟨congrArg MetadataValue.ident read.1,read.2⟩
  | str text =>
    refine .peek here ((yieldsString ended here).bind fun t q read => yieldsPure ?_)
    exact ⟨congrArg MetadataValue.str read.1,read.2⟩
  | strList items =>
    simp only [MetadataValue.words,listWords,List.cons_append,List.append_assoc] at here
    refine .peek here ((yieldsAdvance ended here (by simp)).bind fun _ q after => ?_)
    refine (yieldsCommaListUnless ended SpannedString.quoted (by simp)
      (fun s _ => ⟨_,_,rfl,by simp⟩) (fun s _ p rest here => yieldsString ended here) after).bind
        fun ys r list => ?_
    refine (yieldsExpect ended list.2 (by simp)).bind fun _ r' close => yieldsPure ?_
    exact ⟨congrArg MetadataValue.strList list.1,close⟩

theorem ensuresMetadataEntry :
    Ensures parseMetadataEntry p fun m rest => p.ahead = m.words ++ rest := by
  refine (ensuresIdent ended).bind fun key q name => ?_
  refine (ensuresExpect ended (by simp)).bind fun _ r colon => ?_
  refine (ensuresMetadataValue ended).bind fun v r' value => ensuresPure ?_
  rw [name,colon,value]
  simp [MetadataEntry.words]

theorem yieldsMetadataEntry {m : MetadataEntry} {rest} (here : p.ahead = m.words ++ rest) :
    Yields parseMetadataEntry p fun n after => n.bare = m.bare ∧ after = rest := by
  simp only [MetadataEntry.words,List.append_assoc,List.cons_append] at here
  refine (yieldsIdent ended here).bind fun key q name => ?_
  refine (yieldsExpect ended name.2 (by simp)).bind fun _ r colon => ?_
  refine (yieldsMetadataValue ended colon).bind fun v r' value => yieldsPure ?_
  exact ⟨by rw [MetadataEntry.bare,MetadataEntry.bare,name.1,value.1],value.2⟩

theorem ensuresPredicateAttr :
    Ensures parsePredicateAttr p fun a rest => p.ahead = a.words ++ rest := by
  refine (ensuresIdent ended).bind fun name q named => ?_
  refine (ensuresExpect ended (by simp)).bind fun _ r colon => .peek fun kind rest here => ?_
  have done {v : AttrValue} {r' : Parser tokens} (read : r.ahead = v.words ++ r'.ahead) :
      p.ahead = (PredicateAttr.mk name v (name.span.merge v.span)).words ++ r'.ahead := by
    rw [named,colon,read]
    simp [PredicateAttr.words]
  split
  · exact (ensuresString ended).bind fun _ _ read => ensuresPure (done read)
  · exact (ensuresInt ended).bind fun _ _ read => ensuresPure (done read)
  · refine .peekSpan fun span => (yieldsAdvance ended here (by simp)).ensures.bind fun _ q after =>
      ensuresPure (done ?_)
    rw [here,after]
    rfl
  · exact (ensuresIdent ended).bind fun _ _ read => ensuresPure (done read)
  · exact ensuresError

theorem yieldsPredicateAttr {a : PredicateAttr} {rest} (here : p.ahead = a.words ++ rest) :
    Yields parsePredicateAttr p fun b after => b.bare = a.bare ∧ after = rest := by
  simp only [PredicateAttr.words,List.append_assoc,List.cons_append] at here
  refine (yieldsIdent ended here).bind fun name q named => ?_
  refine (yieldsExpect ended named.2 (by simp)).bind fun _ r colon => ?_
  have done {v : AttrValue} {span} (same : v.bare = a.value.bare) :
      (PredicateAttr.mk name v span).bare = a.bare := by
    rw [PredicateAttr.bare,PredicateAttr.bare,named.1,same]
  cases value : a.value with
  | ident s =>
    rw [value] at colon done
    exact .peek colon ((yieldsIdent ended colon).bind fun t _ read =>
      yieldsPure ⟨done (congrArg AttrValue.ident read.1),read.2⟩)
  | str s =>
    rw [value] at colon done
    exact .peek colon ((yieldsString ended colon).bind fun t _ read =>
      yieldsPure ⟨done (congrArg AttrValue.str read.1),read.2⟩)
  | int n =>
    rw [value] at colon done
    exact .peek colon ((yieldsInt ended colon).bind fun t _ read =>
      yieldsPure ⟨done (congrArg AttrValue.int read.1),read.2⟩)
  | bool b =>
    rw [value] at colon done
    exact .peek colon (.peekSpan fun span => (yieldsAdvance ended colon (by simp)).bind fun _ _ after =>
      yieldsPure ⟨done rfl,after⟩)

theorem ensuresPredicate : Ensures parsePredicate p fun d rest => p.ahead = d.words ++ rest := by
  refine (ensuresIdent ended).bind fun kind q named => ?_
  refine (ensuresExpect ended (by simp)).bind fun _ r opened => ?_
  refine (ensuresCommaListUnless ended PredicateAttr.words fun _ => ensuresPredicateAttr ended).bind
    fun attributes r' list => ?_
  refine (ensuresExpect ended (by simp)).bind fun _ _ close => ensuresPure ?_
  rw [named,opened,list,close]
  simp [Predicate.words]

theorem yieldsPredicate {d : Predicate} {rest} (here : p.ahead = d.words ++ rest) :
    Yields parsePredicate p fun e after => e.bare = d.bare ∧ after = rest := by
  simp only [Predicate.words,List.append_assoc,List.cons_append] at here
  refine (yieldsIdent ended here).bind fun kind q named => ?_
  refine (yieldsExpect ended named.2 (by simp)).bind fun _ r opened => ?_
  refine (yieldsCommaListUnless ended PredicateAttr.words (by simp) (fun a _ => ⟨_,_,rfl,by simp⟩)
    (fun a _ p rest here => yieldsPredicateAttr ended here) opened).bind fun attributes r' list => ?_
  refine (yieldsExpect ended list.2 (by simp)).bind fun _ _ close => yieldsPure ?_
  exact ⟨by rw [Predicate.bare,Predicate.bare,named.1,list.1],close⟩

theorem ensuresEvidenceDecl (requiredness : Requiredness) {rest}
    (here : p.ahead = EvidenceDecl.keyword requiredness :: rest) :
    Ensures (parseEvidenceDecl requiredness) p fun d rest => p.ahead = d.words ++ rest := by
  have visible : EvidenceDecl.keyword requiredness ≠ .eof := by cases requiredness <;> simp [EvidenceDecl.keyword]
  refine (yieldsAdvance ended here visible).ensures.bind fun _ q after => .peekSpan fun start => ?_
  refine (ensuresIdent ended).bind fun name r named => ?_
  refine (ensuresExpect ended (by simp)).bind fun _ r' colon => ?_
  refine (ensuresPredicate ended).bind fun predicate _ read => ensuresPure ?_
  rw [here,← after,named,colon,read]
  simp [EvidenceDecl.words]

theorem yieldsEvidenceDecl {d : EvidenceDecl} {rest} (here : p.ahead = d.words ++ rest) :
    Yields (parseEvidenceDecl d.requiredness) p fun e after => e.bare = d.bare ∧ after = rest := by
  have visible : EvidenceDecl.keyword d.requiredness ≠ .eof := by
    cases d.requiredness <;> simp [EvidenceDecl.keyword]
  simp only [EvidenceDecl.words,List.append_assoc,List.cons_append] at here
  refine (yieldsAdvance ended here visible).bind fun _ q after => .peekSpan fun start => ?_
  refine (yieldsIdent ended after).bind fun name r named => ?_
  refine (yieldsExpect ended named.2 (by simp)).bind fun _ r' colon => ?_
  refine (yieldsPredicate ended colon).bind fun predicate _ read => yieldsPure ?_
  exact ⟨by rw [EvidenceDecl.bare,EvidenceDecl.bare,named.1,read.1],read.2⟩

theorem ensuresDeclRound (requiredness : Requiredness) {decls : List EvidenceDecl} {rest}
    (here : p.ahead = EvidenceDecl.keyword requiredness :: rest) :
    Ensures (declRound requiredness decls) p fun next rest =>
      ∃ d, next = (true,decls ++ [d]) ∧ p.ahead = d.words ++ rest := by
  refine (ensuresEvidenceDecl ended requiredness here).attempt.bind fun o q found => ?_
  obtain ⟨d,rfl,read⟩ := found
  exact ensuresPure ⟨d,rfl,read⟩

theorem yieldsDeclRound {d : EvidenceDecl} {decls : List EvidenceDecl} {rest} (here : p.ahead = d.words ++ rest) :
    Yields (declRound d.requiredness decls) p fun next after =>
      ∃ e, next = (true,decls ++ [e]) ∧ e.bare = d.bare ∧ after = rest := by
  refine (yieldsEvidenceDecl ended here).attempt.bind fun o q found => ?_
  obtain ⟨e,rfl,same,after⟩ := found
  exact yieldsPure ⟨e,rfl,same,after⟩

end RootCause.Dsl
