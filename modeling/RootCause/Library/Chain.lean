import Mathlib.Order.Defs.LinearOrder
import Mathlib.Data.List.Forall2
import Mathlib.Data.List.ReduceOption
import Mathlib.Data.List.Sort

/-! Choosing one element from each of several lists so that the keys never
decrease. A missing key is a wildcard: it is allowed anywhere and leaves the
running bound as it was. Taking the earliest allowed element of each list in
turn is sound, and complete when every list is sorted by key. -/
namespace RootCause.Library
variable {β κ : Type} [LinearOrder κ]

/- The order of optional keys with the missing key below every present one. -/
def keyLe : Option κ → Option κ → Bool
  | none, _ => true
  | some _, none => false
  | some a, some b => decide (a ≤ b)

def permits : Option κ → Option κ → Bool
  | some bound, some value => decide (bound ≤ value)
  | _, _ => true

def advance (lower k : Option κ) : Option κ := match k with
  | some value => some value
  | none => lower

def greedy (key : β → Option κ) : Option κ → List (List β) → Option (List β)
  | _, [] => some []
  | lower, options :: rest => do
      let chosen ← options.find? (fun b => permits lower (key b))
      let tail ← greedy key (advance lower (key chosen)) rest
      some (chosen :: tail)

/- Each element is the first of its list that the bound left by the earlier ones
allows. -/
inductive Earliest (key : β → Option κ) : Option κ → List (List β) → List β → Prop where
  | nil {lower} : Earliest key lower [] []
  | cons {lower options rest b tail} (first : options.find? (fun b => permits lower (key b)) = some b)
      (after : Earliest key (advance lower (key b)) rest tail) :
      Earliest key lower (options :: rest) (b :: tail)

def Chain : Option κ → List (Option κ) → Prop
  | _, [] => True
  | lower, k :: ks => permits lower k = true ∧ Chain (advance lower k) ks

def sortKeys (key : β → Option κ) (xs : List β) : List β :=
  xs.insertionSort (fun a b => keyLe (key a) (key b) = true)

theorem keyLeRefl (a : Option κ) : keyLe a a = true := by cases a <;> simp [keyLe]

theorem keyLeTrans {a b c : Option κ} (ab : keyLe a b = true) (bc : keyLe b c = true) :
    keyLe a c = true := by
  cases a <;> cases b <;> cases c <;> simp_all [keyLe]
  exact le_trans ab bc

theorem keyLeTotal (a b : Option κ) : keyLe a b = true ∨ keyLe b a = true := by
  cases a <;> cases b <;> simp [keyLe,le_total]

theorem permitsBelow {low high k : Option κ} (le : keyLe low high = true)
    (ok : permits high k = true) : permits low k = true := by
  cases low <;> cases high <;> cases k <;> simp_all [permits,keyLe]
  exact le_trans le ok

/- The smaller bound stays smaller when it advances by the smaller key: the one
fact behind the exchange argument of the greedy choice. -/
theorem advanceMono {low high j k : Option κ} (le : keyLe low high = true)
    (jk : keyLe j k = true) (ok : permits high k = true) :
    keyLe (advance low j) (advance high k) = true := by
  cases j with
  | some value => cases k <;> simp_all [keyLe,advance]
  | none => cases k with
    | none => exact le
    | some value =>
      cases low <;> cases high <;> simp_all [keyLe,advance,permits]
      exact le_trans le ok

theorem memSortKeys {key : β → Option κ} {xs : List β} {b : β} :
    b ∈ sortKeys key xs ↔ b ∈ xs := (List.perm_insertionSort _ xs).mem_iff

theorem sortKeysSorted (key : β → Option κ) (xs : List β) :
    (sortKeys key xs).Pairwise (fun a b => keyLe (key a) (key b) = true) := by
  have : Std.Total (fun a b : β => keyLe (key a) (key b) = true) := ⟨fun a b => keyLeTotal _ _⟩
  have : IsTrans β (fun a b => keyLe (key a) (key b) = true) := ⟨fun _ _ _ => keyLeTrans⟩
  exact List.pairwise_insertionSort _ xs

theorem chainBounds {lower : Option κ} {ks : List (Option κ)} :
    Chain lower ks ↔ (∀ bound ∈ lower, ∀ k ∈ ks.reduceOption, bound ≤ k) ∧
      ks.reduceOption.Pairwise (· ≤ ·) := by
  induction ks generalizing lower with
  | nil => simp [Chain]
  | cons k ks ih =>
    cases k with
    | none => simpa [Chain,permits,advance] using ih
    | some value =>
      cases lower with
      | none => simp [Chain,permits,advance,ih]
      | some bound =>
        simp only [Chain,permits,advance,ih,decide_eq_true_eq,List.reduceOption_cons_of_some,
          List.mem_cons,List.pairwise_cons,Option.mem_def,Option.some.injEq,forall_eq']
        constructor
        · intro given
          obtain ⟨first,above,rest⟩ := given
          refine ⟨?_,above,rest⟩
          intro k given
          rcases given with rfl | mem
          · exact first
          · exact le_trans first (above k mem)
        · intro given
          obtain ⟨bounds,above,rest⟩ := given
          exact ⟨bounds value (Or.inl rfl),above,rest⟩

theorem chainFromNone {ks : List (Option κ)} :
    Chain none ks ↔ ks.reduceOption.Pairwise (· ≤ ·) := by
  rw [chainBounds]; simp

omit [LinearOrder κ] in
theorem reduceOptionPairwise {R : κ → κ → Prop} {ks : List (Option κ)} :
    ks.reduceOption.Pairwise R ↔ ks.Pairwise fun a b => ∀ x ∈ a, ∀ y ∈ b, R x y := by
  unfold List.reduceOption
  rw [List.pairwise_filterMap]
  simp only [id_eq,Option.mem_def]

theorem markedPairwise {xs : List β} {order key : β → Option κ} {bot : κ} (marked : β → Prop)
    (least : ∀ k, bot ≤ k) (present : ∀ x ∈ xs, (key x).isSome)
    (atMarked : ∀ x ∈ xs, marked x → key x = some bot)
    (unmarked : ∀ x ∈ xs, ¬ marked x → key x = order x)
    (sorted : xs.Pairwise fun x y => ∀ a ∈ order x, ∀ b ∈ order y, a ≤ b) :
    (xs.Pairwise fun x y => ∀ a ∈ key x, ∀ b ∈ key y, a ≤ b) ↔
      xs.Pairwise fun x y => marked y → key x = some bot := by
  constructor
  · intro second
    refine second.imp_of_mem ?_
    intro x y hx hy le mark
    obtain ⟨k,found⟩ := Option.isSome_iff_exists.mp (present x hx)
    have below : k ≤ bot := le k found bot (atMarked y hy mark)
    rw [found,le_antisymm below (least k)]
  · intro before
    refine (sorted.and before).imp_of_mem ?_
    intro x y hx hy both a ha b hb
    obtain ⟨first,start⟩ := both
    by_cases markY : marked y
    · cases Option.some.inj (ha.symm.trans (start markY))
      exact least b
    · by_cases markX : marked x
      · cases Option.some.inj (ha.symm.trans (atMarked x hx markX))
        exact least b
      · rw [unmarked x hx markX] at ha
        rw [unmarked y hy markY] at hb
        exact first a ha b hb

theorem greedyEarliest {key : β → Option κ} {lower : Option κ} {lists : List (List β)}
    {out : List β} : greedy key lower lists = some out ↔ Earliest key lower lists out := by
  constructor
  · intro found
    induction lists generalizing lower out with
    | nil =>
      cases Option.some.inj found
      exact .nil
    | cons options rest ih =>
      simp only [greedy,bind,Option.bind_eq_some_iff] at found
      obtain ⟨chosen,first,tail,ht,last⟩ := found
      cases Option.some.inj last
      exact .cons first (ih ht)
  · intro earliest
    induction earliest with
    | nil => rfl
    | cons first after ih => simp [greedy,first,ih]

theorem greedySound {key : β → Option κ} {lower : Option κ} {lists : List (List β)}
    {out : List β} (ok : greedy key lower lists = some out) :
    List.Forall₂ (· ∈ ·) out lists ∧ Chain lower (out.map key) := by
  induction lists generalizing lower out with
  | nil => cases Option.some.inj ok; exact ⟨.nil,trivial⟩
  | cons options rest ih =>
    simp only [greedy,bind,Option.bind_eq_some_iff] at ok
    obtain ⟨chosen,found,tail,ht,last⟩ := ok
    cases Option.some.inj last
    have below := ih ht
    exact ⟨.cons (List.mem_of_find?_eq_some found) below.1,by simpa using List.find?_some found,below.2⟩

theorem findEarliest {key : β → Option κ} {lower : Option κ} {options : List β} {b : β}
    (sorted : options.Pairwise (fun a b => keyLe (key a) (key b) = true))
    (mem : b ∈ options) (ok : permits lower (key b) = true) :
    ∃ chosen, options.find? (fun b => permits lower (key b)) = some chosen ∧
      keyLe (key chosen) (key b) = true := by
  induction options with
  | nil => contradiction
  | cons head tail ih =>
    obtain ⟨above,sorted⟩ := List.pairwise_cons.mp sorted
    by_cases first : permits lower (key head) = true
    · refine ⟨head,by simp [first],?_⟩
      rcases List.mem_cons.mp mem with rfl | inside
      · exact keyLeRefl _
      · exact above b inside
    · rcases List.mem_cons.mp mem with rfl | inside
      · exact absurd ok first
      · obtain ⟨chosen,found,le⟩ := ih sorted inside
        exact ⟨chosen,by simp [first,found],le⟩

theorem earliestLeast {key : β → Option κ} {bot : κ} (least : ∀ k, bot ≤ k) {lower : Option κ}
    (low : ∀ k ∈ lower, k = bot) {options : List β} {b m : β}
    (sorted : options.Pairwise fun x y => keyLe (key x) (key y) = true)
    (present : (key b).isSome) (found : options.find? (fun x => permits lower (key x)) = some b)
    (mem : m ∈ options) (atLeast : key m = some bot) : key b = some bot := by
  have ok : permits lower (key m) = true := by
    cases lower with
    | none => rfl
    | some bound =>
      have same : bound = bot := low bound rfl
      simp [permits,atLeast,same]
  obtain ⟨chosen,first,le⟩ := findEarliest sorted mem ok
  cases Option.some.inj (found.symm.trans first)
  obtain ⟨k,given⟩ := Option.isSome_iff_exists.mp present
  have below : k ≤ bot := by simpa [given,atLeast,keyLe] using le
  rw [given,le_antisymm below (least k)]

theorem earliestMarked {σ : Type} {options : σ → List β} {key : β → Option κ} {bot : κ}
    (least : ∀ k, bot ≤ k) (marked : σ → Prop) {lower : Option κ} (low : ∀ k ∈ lower, k = bot)
    {steps : List σ} {out : List β} (earliest : Earliest key lower (steps.map options) out)
    (sorted : ∀ s ∈ steps, (options s).Pairwise fun x y => keyLe (key x) (key y) = true)
    (wild : ∀ s ∈ steps, marked s → ∀ b ∈ options s, key b = none)
    (present : ∀ s ∈ steps, ¬ marked s → ∀ b ∈ options s, (key b).isSome)
    (before : steps.Pairwise fun s t => marked t → ¬ marked s → ∃ b ∈ options s, key b = some bot) :
    (steps.zip out).Pairwise fun x y => marked y.1 → ¬ marked x.1 → key x.2 = some bot := by
  induction steps generalizing lower out with
  | nil => simp
  | cons s rest ih =>
    cases earliest with
    | @cons _ _ _ b tail first after =>
    simp only [List.forall_mem_cons] at sorted wild present
    obtain ⟨ahead,before⟩ := List.pairwise_cons.mp before
    have inside : b ∈ options s := List.mem_of_find?_eq_some first
    rw [List.zip_cons_cons,List.pairwise_cons]
    -- Behind the last marked step nothing is asked of the keys.
    by_cases later : ∃ t ∈ rest, marked t
    · obtain ⟨t,mem,mark⟩ := later
      have chosen : ¬ marked s → key b = some bot := by
        intro plain
        obtain ⟨m,listed,atLeast⟩ := ahead t mem mark plain
        exact earliestLeast least low sorted.1 (present.1 plain b inside) first listed atLeast
      have advanced : ∀ k ∈ advance lower (key b), k = bot := by
        by_cases mark : marked s
        · rw [wild.1 mark b inside]
          exact low
        · rw [chosen mark]
          simp [advance,eq_comm]
      exact ⟨fun _ _ _ => chosen,ih advanced after sorted.2 wild.2 present.2 before⟩
    · have free {y : σ × β} (mem : y ∈ rest.zip tail) : ¬ marked y.1 := fun mark =>
        later ⟨y.1,(List.of_mem_zip mem).1,mark⟩
      refine ⟨fun y mem mark => absurd mark (free mem),?_⟩
      exact List.pairwise_iff_forall_sublist.mpr fun sub mark =>
        absurd mark (free (sub.subset (by simp)))

/- Exchange: from any bound not above the one a chain was built for, the earliest
choices never get stuck. -/
theorem greedyComplete {key : β → Option κ} {low high : Option κ} {lists : List (List β)}
    {out : List β} (le : keyLe low high = true)
    (sorted : ∀ options ∈ lists, options.Pairwise (fun a b => keyLe (key a) (key b) = true))
    (member : List.Forall₂ (· ∈ ·) out lists) (chain : Chain high (out.map key)) :
    ∃ chosen, greedy key low lists = some chosen := by
  induction member generalizing low high with
  | nil => exact ⟨[],rfl⟩
  | @cons b options out lists mem tail ih =>
    obtain ⟨allowed,rest⟩ := chain
    obtain ⟨chosen,found,least⟩ := findEarliest (sorted options List.mem_cons_self) mem
      (permitsBelow le allowed)
    obtain ⟨others,ho⟩ := ih (advanceMono le least allowed)
      (fun o ho => sorted o (List.mem_cons_of_mem _ ho)) rest
    exact ⟨chosen :: others,by simp [greedy,found,ho]⟩

end RootCause.Library
