import RootCause.Library.Except

/-! Comma-separated records in the manner of RFC 4180, read character by character. A line
feed outside quotes ends a record, with a carriage return before it or without; every
other carriage return outside quotes is text. -/
namespace RootCause.Library.Csv

inductive Mode where
  | blank
  | text
  | carriage
  | quoted
  | closed
  | closedCarriage
  deriving DecidableEq, Repr

structure Reader where
  records : List (List String)
  fields : List String
  field : List Char
  mode : Mode
  deriving DecidableEq, Repr

namespace Reader

def fresh (records : List (List String)) (fields : List String) : Reader := ⟨records,fields,[],.blank⟩

def push (r : Reader) (c : Char) (mode : Mode) : Reader := { r with field := r.field ++ [c], mode := mode }

def endField (r : Reader) : Reader := fresh r.records (r.fields ++ [.ofList r.field])

def endRecord (r : Reader) : Reader := fresh (r.records ++ [r.fields ++ [.ofList r.field]]) []

def bare (r : Reader) (c : Char) : Option Reader :=
  if c = ',' then some r.endField
  else if c = '\n' then some r.endRecord
  else if c = '\r' then some { r with mode := .carriage }
  else if c = '"' then none
  else some (r.push c .text)

def step (r : Reader) (c : Char) : Option Reader :=
  match r.mode with
  | .blank => if c = '"' then some { r with mode := .quoted } else r.bare c
  | .text => r.bare c
  | .carriage => if c = '\n' then some r.endRecord else (r.push '\r' .text).bare c
  | .quoted => if c = '"' then some { r with mode := .closed } else some (r.push c .quoted)
  | .closed =>
    if c = '"' then some (r.push c .quoted)
    else if c = ',' then some r.endField
    else if c = '\n' then some r.endRecord
    else if c = '\r' then some { r with mode := .closedCarriage }
    else none
  | .closedCarriage => if c = '\n' then some r.endRecord else none

def finish (r : Reader) : Option (List (List String)) :=
  match r.mode with
  | .blank => some (if r.fields = [] then r.records else r.endRecord.records)
  | .text | .closed => some r.endRecord.records
  | .carriage => some (r.push '\r' .text).endRecord.records
  | .quoted | .closedCarriage => none

def run (r : Reader) (cs : List Char) : Option Reader := cs.foldlM step r

end Reader

def read (text : String) : Option (List (List String)) := do
  (← (Reader.fresh [] []).run text.toList).finish

def doubled (c : Char) : List Char := if c = '"' then ['"','"'] else [c]

/- The texts that stand for a value: the value itself where it has no special character, or
the value in quotes with its quotes doubled. -/
inductive Written : List Char → List Char → Prop
  | bare {s} (plain : ∀ c ∈ s, c ≠ ',' ∧ c ≠ '"' ∧ c ≠ '\n') : Written s s
  | quoted {s} : Written ('"' :: s.flatMap doubled ++ ['"']) s

def lastRead (text value : List Char) : List Char :=
  if text.getLast? = some '\r' then value.dropLast else value

inductive Holds (records : List (List String)) (fields : List String) : List Char → Reader → Prop
  | blank : Holds records fields [] (.fresh records fields)
  | text {s} (ends : s.getLast? ≠ some '\r') : Holds records fields s ⟨records,fields,s,.text⟩
  | carriage {s} : Holds records fields (s ++ ['\r']) ⟨records,fields,s,.carriage⟩

variable {records : List (List String)} {fields : List String}

theorem runAppend {r : Reader} {xs ys : List Char} : r.run (xs ++ ys) = (r.run xs).bind fun q => q.run ys :=
  List.foldlM_append

theorem holdsStep {s : List Char} {r : Reader} {c : Char} (holds : Holds records fields s r)
    (plain : c ≠ ',' ∧ c ≠ '"' ∧ c ≠ '\n') : ∃ q, r.step c = some q ∧ Holds records fields (s ++ [c]) q := by
  obtain ⟨comma,quote,feed⟩ := plain
  have bare (t : List Char) (mode : Mode) : ∃ q, Reader.bare ⟨records,fields,t,mode⟩ c = some q ∧
      Holds records fields (t ++ [c]) q := by
    by_cases carriage : c = '\r'
    · subst carriage
      exact ⟨_,rfl,.carriage⟩
    · refine ⟨⟨records,fields,t ++ [c],.text⟩,?_,.text ?_⟩
      · simp [Reader.bare,Reader.push,comma,quote,feed,carriage]
      · simpa using carriage
  cases holds with
  | blank => simpa [Reader.step,Reader.fresh,quote] using bare [] .blank
  | text ends => simpa [Reader.step] using bare s .text
  | @carriage t => simpa [Reader.step,feed,Reader.push] using bare (t ++ ['\r']) .text

theorem runBare {s t : List Char} {r : Reader} (holds : Holds records fields s r)
    (plain : ∀ c ∈ t, c ≠ ',' ∧ c ≠ '"' ∧ c ≠ '\n') :
    ∃ q, r.run t = some q ∧ Holds records fields (s ++ t) q := by
  induction t generalizing s r with
  | nil => exact ⟨r,rfl,by rwa [List.append_nil]⟩
  | cons c rest ih =>
    obtain ⟨here,later⟩ := List.forall_mem_cons.mp plain
    obtain ⟨q,stepped,held⟩ := holdsStep holds here
    obtain ⟨p,ran,last⟩ := ih held later
    refine ⟨p,?_,by simpa using last⟩
    rw [Reader.run,List.foldlM_cons,stepped]
    exact ran

theorem holdsComma {s : List Char} {r : Reader} (holds : Holds records fields s r) :
    r.step ',' = some (.fresh records (fields ++ [.ofList s])) := by
  cases holds with
  | blank => rfl
  | text _ => rfl
  | carriage => rfl

theorem holdsFeed {s : List Char} {r : Reader} (holds : Holds records fields s r) :
    r.step '\n' = some (.fresh (records ++ [fields ++ [.ofList (lastRead s s)]]) []) := by
  cases holds with
  | blank => rfl
  | text ends =>
    rw [lastRead,if_neg ends]
    rfl
  | @carriage t =>
    rw [lastRead,if_pos List.getLast?_concat,List.dropLast_concat]
    rfl

theorem runDoubled {s t : List Char} : Reader.run ⟨records,fields,t,.quoted⟩ (s.flatMap doubled) =
    some ⟨records,fields,t ++ s,.quoted⟩ := by
  induction s generalizing t with
  | nil => simp [Reader.run]
  | cons c rest ih =>
    have first : Reader.run ⟨records,fields,t,.quoted⟩ (doubled c) = some ⟨records,fields,t ++ [c],.quoted⟩ := by
      unfold doubled
      split
      · rename_i quote
        subst quote
        rfl
      · rename_i other
        simp [Reader.run,Reader.step,Reader.push,other]
    rw [List.flatMap_cons,runAppend,first,Option.bind_some,ih,List.append_assoc,List.singleton_append]

theorem quotedEnds {s : List Char} : ('"' :: s.flatMap doubled ++ ['"']).getLast? ≠ some '\r' := by
  rw [List.getLast?_concat]
  decide

theorem readText (records : List (List String)) (fields : List String) {text value : List Char}
    (written : Written text value) :
    ∃ r, (Reader.fresh records fields).run text = some r ∧
      r.step ',' = some (.fresh records (fields ++ [.ofList value])) ∧
      r.step '\n' = some (.fresh (records ++ [fields ++ [.ofList (lastRead text value)]]) []) := by
  cases written with
  | bare plain =>
    obtain ⟨r,ran,holds⟩ := runBare (.blank : Holds records fields [] _) plain
    exact ⟨r,ran,holdsComma holds,holdsFeed holds⟩
  | quoted =>
    have opened : (Reader.fresh records fields).run ['"'] = some ⟨records,fields,[],.quoted⟩ := rfl
    have closes : Reader.run ⟨records,fields,[] ++ value,.quoted⟩ ['"'] =
      some ⟨records,fields,value,.closed⟩ := rfl
    refine ⟨⟨records,fields,value,.closed⟩,?_,rfl,?_⟩
    · rw [← List.singleton_append,List.append_assoc,runAppend,opened,Option.bind_some,runAppend,runDoubled,
        Option.bind_some,closes]
    · rw [lastRead,if_neg quotedEnds]
      rfl

theorem readLine {texts values : List (List Char)} (written : List.Forall₂ Written texts values)
    {last value : List Char} (ended : Written last value) :
    (Reader.fresh records fields).run (texts.flatMap (· ++ [',']) ++ (last ++ ['\n'])) =
      some (.fresh (records ++ [fields ++ (values.map String.ofList ++ [.ofList (lastRead last value)])]) []) := by
  induction written generalizing fields with
  | nil =>
    obtain ⟨r,ran,_,feed⟩ := readText records fields ended
    rw [List.flatMap_nil,List.nil_append,runAppend,ran,Option.bind_some]
    simpa [Reader.run] using feed
  | cons head tail ih =>
    obtain ⟨r,ran,comma,_⟩ := readText records fields head
    have first : r.run [','] = r.step ',' := by simp [Reader.run]
    rw [List.flatMap_cons,List.append_assoc,List.append_assoc,runAppend,ran,Option.bind_some,runAppend,first,
      comma,Option.bind_some,ih]
    simp

theorem readLines {lines : List (List Char)} {rows : List (List String)}
    (each : List.Forall₂ (fun line row => ∀ records,
      (Reader.fresh records []).run line = some (.fresh (records ++ [row]) [])) lines rows) :
    read (.ofList lines.flatten) = some rows := by
  have all (records : List (List String)) :
      (Reader.fresh records []).run lines.flatten = some (.fresh (records ++ rows) []) := by
    induction each generalizing records with
    | nil => simp [Reader.run]
    | cons head tail ih =>
      rw [List.flatten_cons,runAppend,head,Option.bind_some,ih]
      simp
  rw [read,String.toList_ofList,all]
  rfl

theorem lastReadSame {text value : List Char} (written : Written text value) :
    lastRead text value = value ↔ text.getLast? ≠ some '\r' := by
  unfold lastRead
  cases written with
  | bare plain =>
    split
    · rename_i ends
      have visible : text ≠ [] := by
        rintro rfl
        simp at ends
      have shorter : text.dropLast ≠ text := by
        intro same
        have lengths := congrArg List.length same
        rw [List.length_dropLast] at lengths
        have positive := List.length_pos_iff.mpr visible
        omega
      simp [ends,shorter]
    · rename_i ends
      simp [ends]
  | quoted =>
    rw [if_neg quotedEnds]
    exact iff_of_true rfl quotedEnds

end RootCause.Library.Csv
