import Matchbook.Foundation.Transitions
import Matchbook.Ouch.Codec

namespace Matchbook

open Transitions

/-! # What the outbound stream promises

Over decoded messages, and without the gateway: when a token is live, and what a stream
has to keep to. A reader finds it kept with a ledger of what is left of each token. -/

namespace Ouch

namespace OutMsg

def opens : OutMsg → Option (List UInt8 × Nat)
  | .accepted token _ _ qty _ => some (token, qty.toNat)
  | .replaced _ newToken _ qty _ => some (newToken, qty.toNat)
  | _ => none

def Ends (token : List UInt8) : OutMsg → Prop
  | .canceled other _ => other = token
  | .replaced other _ _ _ _ => other = token
  | _ => False

def executes (token : List UInt8) : OutMsg → Nat
  | .executed other qty _ _ => if other = token then qty.toNat else 0
  | _ => 0

def acted : OutMsg → Option (List UInt8)
  | .executed token _ _ _ => some token
  | .canceled token _ => some token
  | _ => none

def execution : OutMsg → Option (UInt32 × Int64 × UInt64)
  | .executed _ qty price number => some (qty, price, number)
  | _ => none

end OutMsg

def executedQty (token : List UInt8) (stream : List OutMsg) : Nat :=
  (stream.map (OutMsg.executes token)).sum

def Live (stream : List OutMsg) (token : List UInt8) : Prop :=
  ∃ earlier opening later qty, stream = earlier ++ opening :: later ∧
    opening.opens = some (token, qty) ∧ (∀ m ∈ later, ¬ m.Ends token) ∧
    executedQty token later < qty

/-- The executions of some matches, each told to both sides, numbered from `k`. -/
def bothSides : List (UInt32 × Int64) → Nat → List (UInt32 × Int64 × UInt64)
  | [], _ => []
  | (qty, price) :: later, k =>
      (qty, price, UInt64.ofNat k) :: (qty, price, UInt64.ofNat k) :: bothSides later (k + 1)

structure WellFormed (stream : List OutMsg) : Prop where
  /-- Only live tokens are executed and cancelled. -/
  live : ∀ before m after token, stream = before ++ m :: after → m.acted = some token →
    Live before token
  /-- A token is opened once. -/
  single : (stream.filterMap fun m => m.opens.map Prod.fst).Nodup
  /-- No more is executed of a token than it was opened for. -/
  covered : ∀ m ∈ stream, ∀ token qty, m.opens = some (token, qty) →
    executedQty token stream ≤ qty
  /-- Matches are told to both sides, and numbered from 1 on. -/
  numbered : ∃ matched, stream.filterMap OutMsg.execution = bothSides matched 1

/-! ## The reader's ledger -/

abbrev Ledger := List UInt8 → Option Nat

namespace Ledger

def empty : Ledger := fun _ => none

def read (ledger : Ledger) : OutMsg → Ledger
  | .accepted token _ _ qty _ => Function.update ledger token (some qty.toNat)
  | .executed token qty _ _ => Function.update ledger token ((ledger token).map (· - qty.toNat))
  | .canceled token _ => Function.update ledger token ((ledger token).map fun _ => 0)
  | .replaced token newToken _ qty _ =>
      Function.update (Function.update ledger token ((ledger token).map fun _ => 0)) newToken
        (some qty.toNat)
  | .rejected _ _ => ledger

def Allows (ledger : Ledger) : OutMsg → Prop
  | .accepted token _ _ _ _ => ledger token = none
  | .executed token qty _ _ => ∃ left, ledger token = some left ∧ 0 < qty.toNat ∧ qty.toNat ≤ left
  | .canceled token _ => ∃ left, ledger token = some left ∧ 0 < left
  | .replaced token newToken _ _ _ => ledger newToken = none ∧ newToken ≠ token
  | .rejected _ _ => True

def after (stream : List OutMsg) : Ledger := stream.foldl read empty

theorem after_snoc (stream : List OutMsg) (m : OutMsg) :
    after (stream ++ [m]) = (after stream).read m := by
  simp [after]

end Ledger

def Consistent (stream : List OutMsg) : Prop :=
  Throughout Ledger.read Ledger.Allows Ledger.empty stream

theorem consistent_snoc {stream : List OutMsg} {m : OutMsg} :
    Consistent (stream ++ [m]) ↔ Consistent stream ∧ (Ledger.after stream).Allows m := by
  rw [Consistent, throughout_append]
  simp [Throughout, Consistent, Ledger.after]

theorem executedQty_append (token : List UInt8) (first second : List OutMsg) :
    executedQty token (first ++ second) = executedQty token first + executedQty token second := by
  simp [executedQty]

theorem executedQty_cons (token : List UInt8) (m : OutMsg) (stream : List OutMsg) :
    executedQty token (m :: stream) = m.executes token + executedQty token stream := by
  simp [executedQty]

/-! ## What the ledger says of the stream -/

structure Opened (stream : List OutMsg) (token : List UInt8) (left : Nat)
    (earlier : List OutMsg) (opening : OutMsg) (later : List OutMsg) (qty : Nat) : Prop where
  place : stream = earlier ++ opening :: later
  opens : opening.opens = some (token, qty)
  once : ∀ m ∈ earlier ++ later, ∀ qty, m.opens ≠ some (token, qty)
  unused : executedQty token earlier = 0
  covers : executedQty token later + left ≤ qty
  stands : 0 < left → ∀ m ∈ later, ¬ m.Ends token

def Right (stream : List OutMsg) (token : List UInt8) : Option Nat → Prop
  | none => executedQty token stream = 0 ∧ ∀ m ∈ stream, ∀ qty, m.opens ≠ some (token, qty)
  | some left => ∃ earlier opening later qty, Opened stream token left earlier opening later qty

section right

variable {stream : List OutMsg} {token : List UInt8} {m : OutMsg}

theorem Right.pass {entry : Option Nat} (right : Right stream token entry)
    (opens : ∀ qty, m.opens ≠ some (token, qty)) (executes : m.executes token = 0)
    (ends : entry.isSome → ¬ m.Ends token) : Right (stream ++ [m]) token entry := by
  cases entry with
  | none =>
      refine ⟨?_, ?_⟩
      · rw [executedQty_append, right.1, executedQty_cons, executes]
        rfl
      · intro other member
        rcases List.mem_append.mp member with before | last
        · exact right.2 other before
        · rw [List.mem_singleton.mp last]
          exact opens
  | some left =>
      rcases right with ⟨earlier, opening, later, qty, opened⟩
      refine ⟨earlier, opening, later ++ [m], qty, ?_, opened.opens, ?_, opened.unused, ?_, ?_⟩
      · simp [opened.place]
      · intro other member
        simp only [← List.append_assoc, List.mem_append, List.mem_singleton] at member
        rcases member with (first | second) | rfl
        · exact opened.once other (List.mem_append_left _ first)
        · exact opened.once other (List.mem_append_right _ second)
        · exact opens
      · rw [executedQty_append, executedQty_cons, executes]
        simpa [executedQty] using opened.covers
      · intro some other member
        rcases List.mem_append.mp member with before | last
        · exact opened.stands some other before
        · rw [List.mem_singleton.mp last]
          exact ends rfl

theorem Right.opened {qty : Nat} (right : Right stream token none)
    (opens : m.opens = some (token, qty)) : Right (stream ++ [m]) token (some qty) := by
  refine ⟨stream, m, [], qty, rfl, opens, ?_, right.1, ?_, ?_⟩
  · simpa using right.2
  · simp [executedQty]
  · intro _ other member
    cases member

theorem Right.taken {left left' : Nat} (right : Right stream token (some left))
    (opens : ∀ qty, m.opens ≠ some (token, qty)) (less : left' + m.executes token ≤ left)
    (ends : 0 < left' → ¬ m.Ends token) : Right (stream ++ [m]) token (some left') := by
  rcases right with ⟨earlier, opening, later, qty, opened⟩
  refine ⟨earlier, opening, later ++ [m], qty, ?_, opened.opens, ?_, opened.unused, ?_, ?_⟩
  · simp [opened.place]
  · intro other member
    simp only [← List.append_assoc, List.mem_append, List.mem_singleton] at member
    rcases member with (first | second) | rfl
    · exact opened.once other (List.mem_append_left _ first)
    · exact opened.once other (List.mem_append_right _ second)
    · exact opens
  · have covers := opened.covers
    rw [executedQty_append, executedQty_cons]
    have none : executedQty token [] = 0 := rfl
    lia
  · intro some other member
    rcases List.mem_append.mp member with before | last
    · exact opened.stands (by lia) other before
    · rw [List.mem_singleton.mp last]
      exact ends some

theorem Right.read {ledger : Ledger} (right : ∀ token, Right stream token (ledger token))
    (allowed : ledger.Allows m) (token : List UInt8) :
    Right (stream ++ [m]) token (ledger.read m token) := by
  have before := right token
  cases m with
  | accepted other number side qty price =>
      by_cases same : token = other
      · subst same
        have unopened : ledger token = none := allowed
        rw [unopened] at before
        simpa [Ledger.read] using before.opened rfl
      · simp only [Ledger.read, Function.update_of_ne same]
        exact before.pass (by simp [OutMsg.opens, Ne.symm same]) rfl (fun _ => id)
  | executed other qty price number =>
      by_cases same : token = other
      · subst same
        rcases allowed with ⟨left, entry, some, within⟩
        rw [entry] at before
        simp only [Ledger.read, Function.update_self, entry, Option.map_some]
        exact before.taken nofun (by simp [OutMsg.executes]; lia) (fun _ => id)
      · simp only [Ledger.read, Function.update_of_ne same]
        exact before.pass nofun (by simp [OutMsg.executes, Ne.symm same]) (fun _ => id)
  | canceled other reason =>
      by_cases same : token = other
      · subst same
        rcases allowed with ⟨left, entry, some⟩
        rw [entry] at before
        simp only [Ledger.read, Function.update_self, entry, Option.map_some]
        exact before.taken nofun (by simp [OutMsg.executes]) (fun absurd => nomatch absurd)
      · simp only [Ledger.read, Function.update_of_ne same]
        exact before.pass nofun rfl (fun _ => Ne.symm same)
  | replaced old new number qty price =>
      rcases allowed with ⟨unopened, apart⟩
      by_cases isNew : token = new
      · subst isNew
        rw [unopened] at before
        simpa [Ledger.read] using before.opened rfl
      have opens (q : Nat) :
          (OutMsg.replaced old new number qty price).opens ≠ some (token, q) := by
        simp [OutMsg.opens, Ne.symm isNew]
      by_cases isOld : token = old
      · subst isOld
        simp only [Ledger.read, Function.update_of_ne isNew, Function.update_self]
        cases entry : ledger token with
        | none =>
            rw [entry] at before
            exact before.pass opens rfl (fun isSome => nomatch isSome)
        | some left =>
            rw [entry] at before
            exact before.taken opens (by simp [OutMsg.executes]) (fun absurd => nomatch absurd)
      · simp only [Ledger.read, Function.update_of_ne isNew, Function.update_of_ne isOld]
        exact before.pass opens rfl (fun _ => Ne.symm isOld)
  | rejected other reason => exact before.pass nofun rfl (fun _ => id)

theorem Consistent.right (consistent : Consistent stream) (token : List UInt8) :
    Right stream token (Ledger.after stream token) := by
  induction stream using List.reverseRecOn generalizing token with
  | nil => exact ⟨rfl, nofun⟩
  | append_singleton stream m induction =>
      rcases consistent_snoc.mp consistent with ⟨before, allowed⟩
      rw [Ledger.after_snoc]
      exact Right.read (induction before) allowed token

end right

/-! ## Consistent streams keep the promise -/

section promise

variable {stream : List OutMsg}

theorem live_of_left {token : List UInt8} {left : Nat} (consistent : Consistent stream)
    (entry : Ledger.after stream token = some left) (some : 0 < left) : Live stream token := by
  have right := consistent.right token
  rw [entry] at right
  rcases right with ⟨earlier, opening, later, qty, opened⟩
  have covers := opened.covers
  exact ⟨earlier, opening, later, qty, opened.place, opened.opens, opened.stands some, by lia⟩

theorem Consistent.start {before after : List OutMsg}
    (consistent : Consistent (before ++ after)) : Consistent before :=
  (throughout_append.mp consistent).1

theorem Consistent.live (consistent : Consistent stream) {before after : List OutMsg} {m : OutMsg}
    {token : List UInt8} (place : stream = before ++ m :: after) (acted : m.acted = some token) :
    Live before token := by
  have upTo : Consistent (before ++ [m]) := by
    rw [place, ← List.singleton_append, ← List.append_assoc] at consistent
    exact consistent.start
  rcases consistent_snoc.mp upTo with ⟨start, allowed⟩
  cases m with
  | executed other qty price number =>
      cases acted
      rcases allowed with ⟨left, entry, some, within⟩
      exact live_of_left start entry (by lia)
  | canceled other reason =>
      cases acted
      rcases allowed with ⟨left, entry, some⟩
      exact live_of_left start entry some
  | accepted => cases acted
  | replaced => cases acted
  | rejected => cases acted

theorem Consistent.covered (consistent : Consistent stream) {m : OutMsg} (member : m ∈ stream)
    {token : List UInt8} {qty : Nat} (opens : m.opens = some (token, qty)) :
    executedQty token stream ≤ qty := by
  have right := consistent.right token
  cases entry : Ledger.after stream token with
  | none =>
      rw [entry] at right
      exact absurd opens (right.2 m member qty)
  | some left =>
      rw [entry] at right
      rcases right with ⟨earlier, opening, later, opened, facts⟩
      have quiet : opening.executes token = 0 := by
        have opens := facts.opens
        cases opening with
        | executed => cases opens
        | _ => rfl
      have isOpening : m = opening := by
        rw [facts.place] at member
        rcases List.mem_append.mp member with first | rest
        · exact absurd opens (facts.once m (List.mem_append_left _ first) qty)
        rcases List.mem_cons.mp rest with same | second
        · exact same
        · exact absurd opens (facts.once m (List.mem_append_right _ second) qty)
      subst isOpening
      have same : opened = qty := by simpa [facts.opens] using opens
      have covers := facts.covers
      rw [facts.place, executedQty_append, executedQty_cons, facts.unused, quiet]
      lia

theorem Consistent.single (consistent : Consistent stream) :
    (stream.filterMap fun m => m.opens.map Prod.fst).Nodup := by
  induction stream using List.reverseRecOn with
  | nil => exact List.nodup_nil
  | append_singleton stream m induction =>
      rcases consistent_snoc.mp consistent with ⟨before, allowed⟩
      rw [List.filterMap_append]
      cases opens : m.opens with
      | none => simpa [opens] using induction before
      | some opening =>
          have unopened : Ledger.after stream opening.1 = none := by
            cases m with
            | accepted => cases opens; exact allowed
            | replaced => cases opens; exact allowed.1
            | _ => cases opens
          have right := before.right opening.1
          rw [unopened] at right
          have fresh : opening.1 ∉ stream.filterMap fun m => m.opens.map Prod.fst := by
            intro member
            rcases List.mem_filterMap.mp member with ⟨other, found, same⟩
            rcases Option.map_eq_some_iff.mp same with ⟨⟨token, qty⟩, opens, rfl⟩
            exact right.2 other found qty opens
          simp only [List.filterMap_cons, opens, Option.map_some, List.filterMap_nil]
          rw [List.nodup_append_comm]
          exact List.nodup_cons.mpr ⟨fresh, induction before⟩

theorem Consistent.wellFormed (consistent : Consistent stream) {matched : List (UInt32 × Int64)}
    (numbered : stream.filterMap OutMsg.execution = bothSides matched 1) : WellFormed stream where
  live _ _ _ _ place acted := consistent.live place acted
  single := consistent.single
  covered _ member _ _ opens := consistent.covered member opens
  numbered := ⟨matched, numbered⟩

end promise

/-! ## Match numbers -/

theorem bothSides_snoc (matched : List (UInt32 × Int64)) (qty : UInt32) (price : Int64) (k : Nat) :
    bothSides (matched ++ [(qty, price)]) k = bothSides matched k ++
      [(qty, price, UInt64.ofNat (k + matched.length)),
        (qty, price, UInt64.ofNat (k + matched.length))] := by
  induction matched generalizing k with
  | nil => rfl
  | cons first matched induction =>
      rw [List.cons_append, bothSides, bothSides, induction, List.length_cons]
      have shifted : k + 1 + matched.length = k + (matched.length + 1) := by lia
      rw [shifted]
      rfl

theorem length_bothSides (matched : List (UInt32 × Int64)) (k : Nat) :
    (bothSides matched k).length = 2 * matched.length := by
  induction matched generalizing k with
  | nil => rfl
  | cons one matched induction =>
      rw [bothSides, List.length_cons, List.length_cons, induction, List.length_cons]
      lia

theorem mem_bothSides {matched : List (UInt32 × Int64)} {k : Nat}
    {execution : UInt32 × Int64 × UInt64} (member : execution ∈ bothSides matched k) :
    ∃ i, k ≤ i ∧ i < k + matched.length ∧ execution.2.2 = UInt64.ofNat i := by
  induction matched generalizing k with
  | nil => cases member
  | cons one matched induction =>
      rw [bothSides, List.mem_cons, List.mem_cons] at member
      rw [List.length_cons]
      rcases member with rfl | rfl | later
      · exact ⟨k, by lia, by lia, rfl⟩
      · exact ⟨k, by lia, by lia, rfl⟩
      · rcases induction later with ⟨i, low, high, number⟩
        exact ⟨i, by lia, by lia, number⟩

/-- Before the numbers wrap, each is in two executions, and those are alike. -/
def Paired (stream : List OutMsg) : Prop :=
  (stream.filterMap OutMsg.execution).length < 2 ^ 65 →
    ∀ execution ∈ stream.filterMap OutMsg.execution,
      (stream.filterMap OutMsg.execution).filter (·.2.2 = execution.2.2) = [execution, execution]

theorem ofNat_ne_ofNat {i k : Nat} (apart : i ≠ k) (left : i < 2 ^ 64) (right : k < 2 ^ 64) :
    UInt64.ofNat i ≠ UInt64.ofNat k := by
  intro same
  have value := congrArg UInt64.toNat same
  rw [UInt64.toNat_ofNat_of_lt' left, UInt64.toNat_ofNat_of_lt' right] at value
  exact apart value

theorem filter_bothSides {matched : List (UInt32 × Int64)} {k : Nat}
    (small : k + matched.length ≤ 2 ^ 64) {execution : UInt32 × Int64 × UInt64}
    (member : execution ∈ bothSides matched k) :
    (bothSides matched k).filter (·.2.2 = execution.2.2) = [execution, execution] := by
  induction matched generalizing k with
  | nil => cases member
  | cons one matched induction =>
      rcases one with ⟨qty, price⟩
      rw [List.length_cons] at small
      rw [bothSides, List.mem_cons, List.mem_cons, ← or_assoc, or_self] at member
      rw [bothSides]
      rcases member with rfl | later
      · -- The numbers behind are higher.
        have none : (bothSides matched (k + 1)).filter (·.2.2 = UInt64.ofNat k) = [] := by
          apply List.filter_eq_nil_iff.mpr
          intro other member
          rcases mem_bothSides member with ⟨i, low, high, number⟩
          have apart := ofNat_ne_ofNat (i := i) (k := k) (by lia) (by lia) (by lia)
          simpa [number] using apart
        simp [none]
      · have rest := induction (by lia) later
        rcases mem_bothSides later with ⟨i, low, high, number⟩
        have apart := ofNat_ne_ofNat (i := k) (k := i) (by lia) (by lia) (by lia)
        rw [number] at rest ⊢
        simp [apart, rest]

theorem paired_of_bothSides {stream : List OutMsg} {matched : List (UInt32 × Int64)}
    (numbered : stream.filterMap OutMsg.execution = bothSides matched 1) : Paired stream := by
  intro few execution member
  rw [numbered] at few member ⊢
  rw [length_bothSides] at few
  exact filter_bothSides (by lia) member

end Ouch

end Matchbook
