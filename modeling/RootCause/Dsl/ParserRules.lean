import RootCause.Dsl.Grammar
import RootCause.Dsl.ParserRuns

/-! Rules for parser actions in terms of the token kinds still to be read. `Ensures`
speaks of every run that leaves no error behind, `Yields` of one that has to exist and
adds no diagnostic. -/
namespace RootCause.Dsl
open Ast ParserM

variable {tokens : List Token} {α β γ σ : Type}

def Parser.ahead (p : Parser tokens) : List TokenKind := (tokens.drop p.pos).map Token.kind

def Ended (tokens : List Token) : Prop := tokens.getLast?.map Token.kind = some .eof

def Ensures (m : ParserM tokens α) (p : Parser tokens) (post : α → List TokenKind → Prop) : Prop :=
  ∀ value q grows, m p = some ⟨value,q,grows⟩ → Clean q → ∃ a, value = some a ∧ post a q.ahead

def Yields (m : ParserM tokens α) (p : Parser tokens) (post : α → List TokenKind → Prop) : Prop :=
  ∃ a q, Runs m p a q ∧ q.diagnostics = p.diagnostics ∧ post a q.ahead

section
variable {p : Parser tokens} {post : α → List TokenKind → Prop} {goal : β → List TokenKind → Prop}

theorem aheadHere : p.ahead = (tokens.get p.pos).kind :: (tokens.drop (p.pos + 1)).map Token.kind := by
  unfold Parser.ahead
  rw [List.drop_eq_getElem_cons p.pos.isLt]
  rfl

theorem aheadLength : p.ahead.length ≤ tokens.length := by
  simp [Parser.ahead]

theorem Yields.ensures {m : ParserM tokens α} (yields : Yields m p post) : Ensures m p post := by
  obtain ⟨a,q,⟨grows,run⟩,_,held⟩ := yields
  intro value r grows' other clean
  rw [run] at other
  cases other
  exact ⟨a,rfl,held⟩

theorem Yields.weaken {m : ParserM tokens α} {post' : α → List TokenKind → Prop} (yields : Yields m p post)
    (weaker : ∀ a rest, post a rest → post' a rest) : Yields m p post' := by
  obtain ⟨a,q,run,same,held⟩ := yields
  exact ⟨a,q,run,same,weaker a _ held⟩

theorem Ensures.weaken {m : ParserM tokens α} {post' : α → List TokenKind → Prop}
    (ensures : Ensures m p post) (weaker : ∀ a rest, post a rest → post' a rest) : Ensures m p post' := by
  intro value q grows run clean
  obtain ⟨a,same,held⟩ := ensures value q grows run clean
  exact ⟨a,same,weaker a _ held⟩

theorem Ensures.also {m : ParserM tokens α} {good : α → Prop} (ensures : Ensures m p post)
    (known : ∀ a q, Runs m p a q → Clean q → good a) : Ensures m p fun a rest => post a rest ∧ good a := by
  intro value q grows run clean
  obtain ⟨a,rfl,held⟩ := ensures value q grows run clean
  exact ⟨a,rfl,held,known a q ⟨grows,run⟩ clean⟩

theorem Ensures.bind {m : ParserM tokens α} {f : α → ParserM tokens β} (first : Ensures m p post)
    (later : ∀ a q, post a q.ahead → Ensures (f a) q goal) : Ensures (m >>= f) p goal := by
  intro value r grows run clean
  simp only [Bind.bind,bind'] at run
  split at run
  · contradiction
  · rename_i q pq failed
    cases run
    obtain ⟨a,same,_⟩ := first _ _ _ failed clean
    contradiction
  · rename_i a q pq done
    obtain ⟨⟨value',r',grows'⟩,last,same⟩ := Option.map_eq_some_iff.mp run
    cases same
    obtain ⟨a',same,held⟩ := first _ _ _ done (clean.earlier grows')
    cases same
    exact later a q held _ _ _ last clean

theorem bindRuns {m : ParserM tokens α} {f : α → ParserM tokens β} {p q r a b} (first : Runs m p a q)
    (later : Runs (f a) q b r) : Runs (m >>= f) p b r := by
  obtain ⟨before,first⟩ := first
  obtain ⟨after,later⟩ := later
  exact ⟨before.trans after,by simp only [Bind.bind,bind',first,later,Option.map_some]⟩

theorem Yields.bind {m : ParserM tokens α} {f : α → ParserM tokens β} (first : Yields m p post)
    (later : ∀ a q, post a q.ahead → Yields (f a) q goal) : Yields (m >>= f) p goal := by
  obtain ⟨a,q,run,same,held⟩ := first
  obtain ⟨b,r,last,kept,held⟩ := later a q held
  exact ⟨b,r,bindRuns run last,kept.trans same,held⟩

theorem yieldsPure {a : α} (held : post a p.ahead) : Yields (pure a) p post := ⟨a,p,⟨_,rfl⟩,rfl,held⟩

theorem ensuresPure {a : α} (held : post a p.ahead) : Ensures (pure a) p post := (yieldsPure held).ensures

theorem ensuresOutOfFuel : Ensures (outOfFuel : ParserM tokens α) p post := by
  intro value q grows run
  contradiction

theorem Yields.peek {f : TokenKind → ParserM tokens α} {kind rest} (here : p.ahead = kind :: rest)
    (later : Yields (f kind) p post) : Yields (peek >>= f) p post := by
  rw [aheadHere] at here
  cases here
  obtain ⟨a,q,run,same,held⟩ := later
  exact ⟨a,q,bindRuns ⟨_,rfl⟩ run,same,held⟩

theorem Ensures.peek {f : TokenKind → ParserM tokens α}
    (later : ∀ kind rest, p.ahead = kind :: rest → Ensures (f kind) p post) : Ensures (peek >>= f) p post := by
  intro value q grows run
  obtain ⟨⟨value',q',grows'⟩,last,same⟩ := Option.map_eq_some_iff.mp run
  cases same
  exact later _ _ aheadHere _ _ _ last

theorem Yields.peekSpan {f : Span → ParserM tokens α} (later : ∀ span, Yields (f span) p post) :
    Yields (peekSpan >>= f) p post := by
  obtain ⟨a,q,run,same,held⟩ := later (tokens.get p.pos).span
  exact ⟨a,q,bindRuns ⟨_,rfl⟩ run,same,held⟩

theorem Ensures.peekSpan {f : Span → ParserM tokens α} (later : ∀ span, Ensures (f span) p post) :
    Ensures (peekSpan >>= f) p post := by
  intro value q grows run
  obtain ⟨⟨value',q',grows'⟩,last,same⟩ := Option.map_eq_some_iff.mp run
  cases same
  exact later _ _ _ _ last

theorem ensuresPush {d : Diagnostic} {goal : Unit → List TokenKind → Prop}
    (error : Diagnostics.hasErrors [d] = true) : Ensures (push d) p goal := by
  intro value q grows run clean
  cases run
  simp [Clean,error] at clean

theorem ensuresError {construct reason : String} {f : Unit → ParserM tokens α} :
    Ensures (error construct reason >>= f) p post := by
  intro value q grows run clean
  obtain ⟨⟨value',q',grows'⟩,last,same⟩ := Option.map_eq_some_iff.mp run
  cases same
  have before := clean.earlier grows'
  simp [Clean] at before

theorem Ensures.attempt {m : ParserM tokens α} (ensures : Ensures m p post) :
    Ensures (attempt m) p fun o rest => ∃ a, o = some a ∧ post a rest := by
  intro value q grows run clean
  obtain ⟨⟨value',q',grows'⟩,inner,same⟩ := Option.map_eq_some_iff.mp run
  cases same
  obtain ⟨a,same,held⟩ := ensures _ _ _ inner clean
  exact ⟨value',rfl,a,same,held⟩

theorem Yields.attempt {m : ParserM tokens α} (yields : Yields m p post) :
    Yields (attempt m) p fun o rest => ∃ a, o = some a ∧ post a rest := by
  obtain ⟨a,q,⟨grows,run⟩,same,held⟩ := yields
  have attempted : Runs (ParserM.attempt m) p (some a) q := ⟨grows,by simp [ParserM.attempt,run]⟩
  exact ⟨some a,q,attempted,same,a,rfl,held⟩

theorem Ensures.iterate {body : σ → ParserM tokens (Bool × σ)} (invariant : σ → List TokenKind → Prop)
    {post : σ → List TokenKind → Prop} (round : ∀ s p, invariant s p.ahead → Ensures (body s) p fun next rest =>
      if next.1 then invariant next.2 rest else post next.2 rest) {fuel : Nat} {s : σ} {p : Parser tokens}
    (start : invariant s p.ahead) : Ensures (iterate body fuel s) p post := by
  induction fuel generalizing s p with
  | zero => exact ensuresOutOfFuel
  | succ fuel ih =>
    refine (round s p start).bind fun next q held => ?_
    obtain ⟨again,s'⟩ := next
    cases again with
    | true => exact ih held
    | false => exact ensuresPure held

theorem Ensures.loop {body : σ → ParserM tokens (Bool × σ)} (invariant : σ → List TokenKind → Prop)
    (round : ∀ s p, invariant s p.ahead → Ensures (body s) p fun next rest => invariant next.2 rest)
    {fuel : Nat} {s : σ} {p : Parser tokens} (start : invariant s p.ahead) :
    Ensures (ParserM.iterate body fuel s) p invariant := by
  refine .iterate invariant (fun s p before => ?_) start
  refine (round s p before).weaken fun next rest held => ?_
  rwa [ite_self]

theorem Yields.iterate {body : σ → ParserM tokens (Bool × σ)}
    (invariant : Nat → σ → List TokenKind → Prop) {post : σ → List TokenKind → Prop}
    (round : ∀ n s p, invariant n s p.ahead → Yields (body s) p fun next rest =>
      if next.1 then ∃ m < n, invariant m next.2 rest else post next.2 rest)
    {fuel n : Nat} {s : σ} {p : Parser tokens} (start : invariant n s p.ahead) (enough : n < fuel) :
    Yields (iterate body fuel s) p post := by
  induction fuel generalizing n s p with
  | zero => omega
  | succ fuel ih =>
    refine (round n s p start).bind fun next q held => ?_
    obtain ⟨again,s'⟩ := next
    cases again with
    | true =>
      obtain ⟨m,fewer,held⟩ := held
      exact ih held (by omega)
    | false => exact yieldsPure held

end

theorem Yields.items {body : σ → ParserM tokens (Bool × σ)} {xs : List α} (words : α → List TokenKind)
    {final : List TokenKind} (held : List α → σ → Prop) (visible : ∀ x ∈ xs, words x ≠ [])
    (each : ∀ done x left s (p : Parser tokens), xs = done ++ x :: left → held done s →
      p.ahead = words x ++ (left.flatMap words ++ final) → Yields (body s) p fun next rest =>
        next.1 = true ∧ held (done ++ [x]) next.2 ∧ rest = left.flatMap words ++ final)
    (last : ∀ s (p : Parser tokens), held xs s → p.ahead = final → Yields (body s) p fun next rest =>
      next.1 = false ∧ held xs next.2 ∧ rest = final)
    {s : σ} {p : Parser tokens} (start : held [] s) (here : p.ahead = xs.flatMap words ++ final) :
    Yields (ParserM.iterate body (loopFuel tokens) s) p fun s rest => held xs s ∧ rest = final := by
  have counted (ys : List α) (nonempty : ∀ y ∈ ys, words y ≠ []) : ys.length ≤ (ys.flatMap words).length := by
    induction ys with
    | nil => simp
    | cons y ys ih =>
      have first := List.length_pos_iff.mpr (nonempty y List.mem_cons_self)
      have later := ih fun z mem => nonempty z (List.mem_cons_of_mem _ mem)
      rw [List.flatMap_cons,List.length_append,List.length_cons]
      omega
  have enough : xs.length < loopFuel tokens := by
    have least := counted xs visible
    have most : p.ahead.length ≤ tokens.length := aheadLength
    rw [here,List.length_append] at most
    rw [loopFuel]
    omega
  refine .iterate (fun n s rest => ∃ done left, xs = done ++ left ∧ n = left.length ∧ held done s ∧
    rest = left.flatMap words ++ final) ?_ ⟨[],xs,rfl,rfl,start,here⟩ enough
  intro n s q found
  obtain ⟨done,left,parts,count,before,here⟩ := found
  cases left with
  | nil =>
    rw [List.append_nil] at parts
    cases parts
    refine (last s q before here).weaken fun next rest ended => ?_
    rw [if_neg (by simp [ended.1])]
    exact ended.2
  | cons x left =>
    rw [List.flatMap_cons,List.append_assoc] at here
    refine (each done x left s q parts before here).weaken fun next rest read => ?_
    rw [if_pos read.1]
    exact ⟨left.length,by simp [count],done ++ [x],left,by simp [parts],rfl,read.2⟩

section
variable {p : Parser tokens} (ended : Ended tokens)
include ended

theorem aheadMore (visible : (tokens.get p.pos).kind ≠ .eof) : p.pos.val + 1 < tokens.length := by
  by_contra last
  have position : p.pos.val = tokens.length - 1 := by omega
  rw [Ended,List.getLast?_eq_getElem?,← position,List.getElem?_eq_getElem p.pos.isLt] at ended
  exact visible (Option.some.inj ended)

theorem yieldsAdvance {kind rest} (here : p.ahead = kind :: rest) (visible : kind ≠ .eof) :
    Yields advance p fun _ after => after = rest := by
  rw [aheadHere] at here
  have more : p.pos.val + 1 < tokens.length := aheadMore ended fun final =>
    visible ((List.cons.inj here).1.symm.trans final)
  have after : ({ p with pos := ⟨p.pos.val + 1,more⟩ } : Parser tokens).ahead = rest := (List.cons.inj here).2
  have run : advance p = some ⟨some (tokens.get p.pos),{ p with pos := ⟨p.pos.val + 1,more⟩ },
      Nat.le_succ _,List.prefix_refl _⟩ := dif_pos more
  exact ⟨_,_,⟨_,run⟩,rfl,after⟩

theorem yieldsExpect {kind construct rest} (here : p.ahead = kind :: rest) (visible : kind ≠ .eof) :
    Yields (expect kind construct) p fun _ after => after = rest := by
  refine .peek here ?_
  rw [if_pos rfl]
  exact yieldsAdvance ended here visible

theorem ensuresExpect {kind construct} (visible : kind ≠ .eof) :
    Ensures (expect kind construct) p fun _ rest => p.ahead = kind :: rest := by
  refine .peek fun found rest here => ?_
  split
  · rename_i same
    cases same
    refine (yieldsAdvance ended here visible).ensures.weaken fun _ after same => ?_
    rw [here,same]
  · exact .peek fun _ _ _ => ensuresError

theorem yieldsIdent {construct} {s : SpannedString} {rest} (here : p.ahead = s.word ++ rest) :
    Yields (expectIdent construct) p fun t after => t.bare = s.bare ∧ after = rest := by
  refine .peekSpan fun span => .peek here ?_
  exact (yieldsAdvance ended here (by simp)).bind fun _ q after => yieldsPure ⟨rfl,after⟩

theorem ensuresIdent {construct} :
    Ensures (expectIdent construct) p fun s rest => p.ahead = s.word ++ rest := by
  refine .peekSpan fun span => .peek fun kind rest here => ?_
  split
  · refine (yieldsAdvance ended here (by simp)).ensures.bind fun _ q after => ensuresPure ?_
    rw [here,after]
    rfl
  · exact ensuresError

theorem yieldsString {construct} {s : SpannedString} {rest} (here : p.ahead = s.quoted ++ rest) :
    Yields (expectString construct) p fun t after => t.bare = s.bare ∧ after = rest := by
  refine .peekSpan fun span => .peek here ?_
  exact (yieldsAdvance ended here (by simp)).bind fun _ q after => yieldsPure ⟨rfl,after⟩

theorem ensuresString {construct} :
    Ensures (expectString construct) p fun s rest => p.ahead = s.quoted ++ rest := by
  refine .peekSpan fun span => .peek fun kind rest here => ?_
  split
  · refine (yieldsAdvance ended here (by simp)).ensures.bind fun _ q after => ensuresPure ?_
    rw [here,after]
    rfl
  · exact ensuresError

theorem yieldsInt {construct} {n : SpannedInt} {rest} (here : p.ahead = .intLit n.value :: rest) :
    Yields (expectInt construct) p fun m after => m.bare = n.bare ∧ after = rest := by
  refine .peekSpan fun span => .peek here ?_
  exact (yieldsAdvance ended here (by simp)).bind fun _ q after => yieldsPure ⟨rfl,after⟩

theorem ensuresInt {construct} :
    Ensures (expectInt construct) p fun n rest => p.ahead = .intLit n.value :: rest := by
  refine .peekSpan fun span => .peek fun kind rest here => ?_
  split
  · refine (yieldsAdvance ended here (by simp)).ensures.bind fun _ q after => ensuresPure ?_
    rw [here,after]
  · exact ensuresError

end

section
variable {p : Parser tokens} {item : ParserM tokens α} {stop : TokenKind} (ended : Ended tokens)
  (words : α → List TokenKind)
include ended

theorem ensuresCommaList
    (each : ∀ p : Parser tokens, Ensures item p fun x rest => p.ahead = words x ++ rest) :
    Ensures (commaList item stop) p fun items rest => p.ahead = commaWords (items.map words) ++ rest := by
  refine .iterate (fun items rest => p.ahead = (items.map words).flatMap (· ++ [.comma]) ++ rest) ?_
    (by simp)
  intro items q before
  have readOne : Ensures (readItem item stop items) q fun longer rest =>
      p.ahead = commaWords (longer.map words) ++ rest ∧ ∃ x, longer = items ++ [x] := by
    refine (each q).attempt.bind fun read r found => ?_
    obtain ⟨x,rfl,here⟩ := found
    refine ensuresPure ⟨?_,x,rfl⟩
    rw [before,here,← List.append_assoc,commaWordsLast,List.map_append,List.map_singleton]
  refine readOne.bind fun longer r found => .peek fun kind rest here => ?_
  obtain ⟨spelled,x,rfl⟩ := found
  split
  · rename_i comma
    cases comma
    refine (yieldsAdvance ended here (by simp)).ensures.bind fun _ r' after => ensuresPure ?_
    rw [if_pos rfl,spelled,here,after,List.map_append,List.map_singleton,← commaWordsLast]
    simp
  · exact ensuresPure spelled

theorem ensuresCommaListUnless
    (each : ∀ p : Parser tokens, Ensures item p fun x rest => p.ahead = words x ++ rest) :
    Ensures (commaListUnless item stop) p fun items rest =>
      p.ahead = commaWords (items.map words) ++ rest := by
  refine .peek fun kind rest here => ?_
  split
  · exact ensuresPure rfl
  · exact ensuresCommaList ended words each

variable {key : α → γ} {xs : List α} {more : List TokenKind}

theorem yieldsCommaList (nonempty : xs ≠ []) (stops : stop ≠ .comma)
    (each : ∀ x ∈ xs, ∀ (p : Parser tokens) rest, p.ahead = words x ++ rest →
      Yields item p fun y after => key y = key x ∧ after = rest)
    (here : p.ahead = commaWords (xs.map words) ++ stop :: more) :
    Yields (commaList item stop) p fun ys rest => ys.map key = xs.map key ∧ rest = stop :: more := by
  refine .iterate (fun n items rest => ∃ done x left, xs = done ++ x :: left ∧ n = left.length ∧
    items.map key = done.map key ∧
    rest = words x ++ (left.map words).flatMap (.comma :: ·) ++ stop :: more) ?_ (n := xs.length - 1) ?_ ?_
  · intro n items q held
    obtain ⟨done,x,left,parts,count,kept,here⟩ := held
    have member : x ∈ xs := by simp [parts]
    have readOne : Yields (readItem item stop items) q fun longer rest =>
        longer.map key = (done ++ [x]).map key ∧
          rest = (left.map words).flatMap (.comma :: ·) ++ stop :: more := by
      rw [List.append_assoc] at here
      refine (each x member q _ here).attempt.bind fun read r found => ?_
      obtain ⟨y,rfl,same,after⟩ := found
      refine yieldsPure ⟨?_,after⟩
      rw [List.map_append,List.map_append,kept,List.map_singleton,List.map_singleton,same]
    refine readOne.bind fun longer r found => ?_
    obtain ⟨kept,after⟩ := found
    cases left with
    | nil =>
      refine .peek after ?_
      rw [if_neg stops]
      refine yieldsPure ⟨?_,after⟩
      rw [kept,parts]
    | cons next left =>
      simp only [List.map_cons,List.flatMap_cons,List.cons_append] at after
      refine .peek after ?_
      rw [if_pos rfl]
      refine (yieldsAdvance ended after (by simp)).bind fun _ r' last => yieldsPure ?_
      rw [if_pos rfl]
      exact ⟨left.length,by simp [count],done ++ [x],next,left,by simp [parts],rfl,kept,last⟩
  · cases xs with
    | nil => contradiction
    | cons x left => exact ⟨[],x,left,rfl,rfl,rfl,by simpa [commaWords] using here⟩
  · have least := commaWordsLength (xs.map words)
    have most : p.ahead.length ≤ tokens.length := aheadLength
    rw [here] at most
    simp only [List.length_append,List.length_cons,List.length_map,loopFuel] at *
    omega

theorem yieldsCommaListUnless (stops : stop ≠ .comma)
    (opens : ∀ x ∈ xs, ∃ kind w, words x = kind :: w ∧ kind ≠ stop)
    (each : ∀ x ∈ xs, ∀ (p : Parser tokens) rest, p.ahead = words x ++ rest →
      Yields item p fun y after => key y = key x ∧ after = rest)
    (here : p.ahead = commaWords (xs.map words) ++ stop :: more) :
    Yields (commaListUnless item stop) p fun ys rest => ys.map key = xs.map key ∧ rest = stop :: more := by
  cases xs with
  | nil =>
    refine .peek here ?_
    rw [if_pos rfl]
    exact yieldsPure ⟨rfl,here⟩
  | cons x left =>
    obtain ⟨kind,w,first,other⟩ := opens x List.mem_cons_self
    have found : p.ahead = kind :: (w ++ (left.map words).flatMap (.comma :: ·) ++ stop :: more) := by
      rw [here,List.map_cons,commaWords,first]
      rfl
    refine .peek found ?_
    rw [if_neg other]
    exact yieldsCommaList ended words (List.cons_ne_nil _ _) stops each here

end

def declRound (requiredness : Requiredness) (decls : List EvidenceDecl) :
    ParserM tokens (Bool × List EvidenceDecl) := do
  match ← attempt (parseEvidenceDecl requiredness) with
  | some decl => pure (true,decls ++ [decl])
  | none =>
    recoverTo declKeywords
    pure (true,decls)

def evidenceRound (decls : List EvidenceDecl) : ParserM tokens (Bool × List EvidenceDecl) := do
  match ← peek with
  | .rBrace | .eof => pure (false,decls)
  | .kwRequired => declRound .required decls
  | .kwOptional => declRound .optional decls
  | other =>
    error "evidence declaration" ("expected `required` or `optional`, found " ++ describe other)
    recoverTo declKeywords
    pure (true,decls)

theorem evidenceLoop : (parseEvidenceSection : ParserM tokens (List EvidenceDecl)) = (do
    let _ ← expect .kwEvidence "evidence section"
    let _ ← expect .lBrace "evidence section"
    let decls ← iterate evidenceRound (loopFuel tokens) []
    let _ ← expect .rBrace "evidence section"
    pure decls) := rfl

end RootCause.Dsl
