import Matchbook.Engine.OpenOrders
import Matchbook.Feed.BookBuilder
import Matchbook.Market.Caps
import Matchbook.Market.Frame

namespace Matchbook

/-! # No orphaned orders

A feed gives an order one reference after another. The builder knows every order that is
open by the last of them, and does nothing to any other order. -/

namespace MatchingEngine

variable {H : Type} {s : MatchingEngine H} {m : Market}

def order (s : MatchingEngine H) (id : OrderId) : Option (Side × Price × Qty × Qty) :=
  (s.lookup id).map fun o =>
    let node := s.mem.nodes o
    (node.side, node.price, node.qty, s.mem.reserve o)

theorem Holds.order_eq (holds : s.Holds m) {side : Side} {px : Price} {o : RO}
    (member : o ∈ m.levels side px) :
    s.order o.id = some (o.side, o.price, o.qty, o.reserve) := by
  rcases holds.found member with ⟨ptr, found, held⟩
  rw [MatchingEngine.order, found, Option.map_some, held.reserve, held.node]
  rfl

end MatchingEngine

namespace Itch

/-! ## Chains of references -/

/-- The references an order has been given, the last one first. -/
structure Chain where
  id : OrderId
  refs : List UInt64

section chains

variable {H : Type} [Handler H]

def Chain.replaced (e : MatchingEngine H) (m : Message) (chain : Chain) : Chain :=
  if chain.refs.head? = some m.ref ∧
      (e.modify chain.id m.price m.qty).map Prod.snd = some true then
    { chain with refs := m.newRef :: chain.refs }
  else chain

def chainsAfter (e : MatchingEngine H) (m : Message) (chains : List Chain) : List Chain :=
  match m.type with
  | .add =>
      match e.submitLimit m.side m.price m.qty .gtc 0 .cancelTaker with
      | some (_, id) => if id ≠ invalidOrderId then chains ++ [⟨id, [m.ref]⟩] else chains
      | none => chains
  | .replace => chains.map (Chain.replaced e m)
  | _ => chains

def chainsOf (b : BookBuilder) (e : MatchingEngine H) (chains : List Chain) :
    List Message → List Chain
  | [] => chains
  | m :: feed =>
      match b.apply e m with
      | some (b', e') => chainsOf b' e' (chainsAfter e m chains) feed
      | none => chains

def BookBuilder.target (b : BookBuilder) (m : Message) : Option OrderId :=
  match m.type with
  | .execute | .cancel | .delete | .replace => b.refmap m.ref
  | _ => none

end chains

/-- Two chains have an order or a reference in common. -/
def Chain.Meets (first second : Chain) : Prop :=
  first.id = second.id ∨ ∃ ref ∈ first.refs, ref ∈ second.refs

structure Chained (b : BookBuilder) (chains : List Chain) (seen : List UInt64) (m : Market) :
    Prop where
  bound : ∀ id, m.IsOpen id → ∃ ref, b.refmap ref = some id
  last : ∀ ref id, b.refmap ref = some id →
    ∃ chain ∈ chains, chain.id = id ∧ chain.refs.head? = some ref
  issued : ∀ chain ∈ chains, chain.id < m.nextId
  apart : ∀ chain ∈ chains, ∀ chain' ∈ chains, chain.Meets chain' → chain = chain'
  seen : ∀ chain ∈ chains, ∀ ref ∈ chain.refs, ref ∈ seen
  ownerless : m.Ownerless

namespace Chained

variable {b : BookBuilder} {chains : List Chain} {seen : List UInt64} {m m' : Market}
  {ref ref' : UInt64} {id : OrderId}

theorem empty (band : Band) : Chained {} [] [] (.new band) where
  bound := by
    rintro id (⟨side, px, o, member, -⟩ | ⟨o, member, -⟩) <;> cases member
  last := nofun
  issued := nofun
  apart := nofun
  seen := nofun
  ownerless := ⟨rfl, fun _ _ _ => nofun⟩

theorem unique (chained : Chained b chains seen m) (known : b.refmap ref = some id)
    (known' : b.refmap ref' = some id) : ref = ref' := by
  rcases chained.last ref id known with ⟨chain, member, same, head⟩
  rcases chained.last ref' id known' with ⟨chain', member', same', head'⟩
  cases chained.apart chain member chain' member' (.inl (same.trans same'.symm))
  exact Option.some.inj (head.symm.trans head')

theorem known_seen (chained : Chained b chains seen m) (known : b.refmap ref = some id) :
    ref ∈ seen := by
  rcases chained.last ref id known with ⟨chain, member, -, head⟩
  exact chained.seen chain member ref (List.mem_of_head? head)

theorem known_of_open (chained : Chained b chains seen m) {chain : Chain} (member : chain ∈ chains)
    (isOpen : m.IsOpen chain.id) (head : chain.refs.head? = some ref) :
    b.refmap ref = some chain.id := by
  rcases chained.bound chain.id isOpen with ⟨ref', known⟩
  rcases chained.last ref' chain.id known with ⟨chain', member', same, head'⟩
  cases chained.apart chain' member' chain member (.inl same)
  cases head.symm.trans head'
  exact known

theorem closes (chained : Chained b chains seen m) (more : List UInt64)
    (isOpen : ∀ id, m'.IsOpen id → m.IsOpen id) (nextId : m.nextId ≤ m'.nextId)
    (ownerless : m'.Ownerless) : Chained b chains (seen ++ more) m' where
  bound id isOpen' := chained.bound id (isOpen id isOpen')
  last := chained.last
  issued chain member := Nat.lt_of_lt_of_le (chained.issued chain member) nextId
  apart := chained.apart
  seen chain member ref inRefs := List.mem_append_left more (chained.seen chain member ref inRefs)
  ownerless := ownerless

theorem forget (chained : Chained b chains seen m) (known : b.refmap ref = some id)
    (closed : ¬ m.IsOpen id) : Chained { b with refmap := b.refmap.erase ref } chains seen m where
  bound := by
    intro other isOpen
    rcases chained.bound other isOpen with ⟨ref', known'⟩
    have differ : ref' ≠ ref := by
      rintro rfl
      cases known.symm.trans known'
      exact closed isOpen
    exact ⟨ref', by simpa [RefMap.erase, Function.update_of_ne differ] using known'⟩
  last := by
    intro ref' other known'
    by_cases same : ref' = ref
    · subst same
      simp [RefMap.erase] at known'
    · simp only [RefMap.erase, Function.update_of_ne same] at known'
      exact chained.last ref' other known'
  issued := chained.issued
  apart := chained.apart
  seen := chained.seen
  ownerless := chained.ownerless

theorem begin (chained : Chained b chains seen m) (fresh : ref ∉ seen)
    (isOpen : ∀ other, m'.IsOpen other → m.IsOpen other ∨ other = m.nextId)
    (nextId : m.nextId < m'.nextId) (ownerless : m'.Ownerless) :
    Chained { b with refmap := b.refmap.insert ref m.nextId } (chains ++ [⟨m.nextId, [ref]⟩])
      (seen ++ [ref]) m' where
  bound := by
    intro other isOpen'
    rcases isOpen other isOpen' with before | rfl
    · rcases chained.bound other before with ⟨ref', known⟩
      have differ : ref' ≠ ref := fun same => fresh (same ▸ chained.known_seen known)
      exact ⟨ref', by simpa [RefMap.insert, Function.update_of_ne differ] using known⟩
    · exact ⟨ref, by simp [RefMap.insert]⟩
  last := by
    intro ref' other known
    by_cases same : ref' = ref
    · subst same
      simp only [RefMap.insert, Function.update_self, Option.some.injEq] at known
      exact ⟨_, List.mem_append_right _ List.mem_cons_self, known, rfl⟩
    · simp only [RefMap.insert, Function.update_of_ne same] at known
      rcases chained.last ref' other known with ⟨chain, member, own, head⟩
      exact ⟨chain, List.mem_append_left _ member, own, head⟩
  issued := by
    intro chain member
    rcases List.mem_append.mp member with before | new
    · exact (chained.issued chain before).trans nextId
    · rw [List.mem_singleton.mp new]
      exact nextId
  apart := by
    have new {chain : Chain} (member : chain ∈ chains) :
        ¬ (chain.id = m.nextId ∨ ref ∈ chain.refs) := by
      rintro (same | inRefs)
      · exact Nat.lt_irrefl _ (same ▸ chained.issued chain member)
      · exact fresh (chained.seen chain member ref inRefs)
    intro chain member chain' member' meets
    rcases List.mem_append.mp member with before | isNew <;>
      rcases List.mem_append.mp member' with before' | isNew'
    · exact chained.apart chain before chain' before' meets
    · cases List.mem_singleton.mp isNew'
      refine absurd ?_ (new before)
      simpa [Chain.Meets] using meets
    · cases List.mem_singleton.mp isNew
      refine absurd ?_ (new before')
      simpa [Chain.Meets, eq_comm] using meets
    · rw [List.mem_singleton.mp isNew, List.mem_singleton.mp isNew']
  seen := by
    intro chain member ref' inRefs
    rcases List.mem_append.mp member with before | new
    · exact List.mem_append_left _ (chained.seen chain before ref' inRefs)
    · cases List.mem_singleton.mp new
      exact List.mem_append_right _ inRefs
  ownerless := ownerless

theorem rebind (chained : Chained b chains seen m) (known : b.refmap ref = some id)
    (fresh : ref' ∉ seen) {extend : Chain → Chain}
    (extended : ∀ chain ∈ chains, extend chain =
      if chain.id = id then { chain with refs := ref' :: chain.refs } else chain)
    (isOpen : ∀ other, m'.IsOpen other → m.IsOpen other) (nextId : m.nextId ≤ m'.nextId)
    (ownerless : m'.Ownerless) :
    Chained { b with refmap := (b.refmap.erase ref).insert ref' id } (chains.map extend)
      (seen ++ [ref']) m' where
  bound := by
    intro other isOpen'
    by_cases same : other = id
    · subst same
      exact ⟨ref', by simp [RefMap.insert]⟩
    · rcases chained.bound other (isOpen other isOpen') with ⟨old, known'⟩
      have notNew : old ≠ ref' := fun same => fresh (same ▸ chained.known_seen known')
      have notOld : old ≠ ref := by
        rintro rfl
        exact same (Option.some.inj (known'.symm.trans known))
      refine ⟨old, ?_⟩
      simpa [RefMap.insert, RefMap.erase, Function.update_of_ne notNew,
        Function.update_of_ne notOld] using known'
  last := by
    intro current other known'
    by_cases isNew : current = ref'
    · subst isNew
      simp only [RefMap.insert, Function.update_self, Option.some.injEq] at known'
      subst known'
      rcases chained.last ref id known with ⟨chain, member, own, -⟩
      refine ⟨_, List.mem_map_of_mem member, ?_⟩
      simp [extended chain member, own]
    · by_cases isOld : current = ref
      · subst isOld
        simp [RefMap.insert, RefMap.erase, Function.update_of_ne isNew] at known'
      · simp only [RefMap.insert, RefMap.erase, Function.update_of_ne isNew,
          Function.update_of_ne isOld] at known'
        rcases chained.last current other known' with ⟨chain, member, own, head⟩
        have other : chain.id ≠ id := by
          intro same
          exact isOld (chained.unique known' (by rw [known, ← same, own]))
        refine ⟨_, List.mem_map_of_mem member, ?_⟩
        rw [extended chain member, if_neg other]
        exact ⟨own, head⟩
  issued := by
    intro chain member
    rcases List.mem_map.mp member with ⟨before, present, rfl⟩
    have small := Nat.lt_of_lt_of_le (chained.issued before present) nextId
    rw [extended before present]
    split <;> exact small
  apart := by
    intro chain member chain' member' meets
    rcases List.mem_map.mp member with ⟨before, present, rfl⟩
    rcases List.mem_map.mp member' with ⟨before', present', rfl⟩
    have sameId {c : Chain} (inChains : c ∈ chains) : (extend c).id = c.id := by
      rw [extended c inChains]
      split <;> rfl
    have refs {c : Chain} (inChains : c ∈ chains) {r : UInt64} (inRefs : r ∈ (extend c).refs) :
        r ∈ c.refs ∨ (r = ref' ∧ c.id = id) := by
      rw [extended c inChains] at inRefs
      split at inRefs
      · rename_i own
        rcases List.mem_cons.mp inRefs with isNew | old
        · exact .inr ⟨isNew, own⟩
        · exact .inl old
      · exact .inl inRefs
    have old {c : Chain} (inChains : c ∈ chains) : ref' ∉ c.refs :=
      fun inRefs => fresh (chained.seen c inChains ref' inRefs)
    suffices met : before.Meets before' by rw [chained.apart before present before' present' met]
    rcases meets with same | ⟨r, inRefs, inRefs'⟩
    · rw [sameId present, sameId present'] at same
      exact .inl same
    · rcases refs present inRefs with first | ⟨rfl, own⟩ <;>
        rcases refs present' inRefs' with second | ⟨isNew, own'⟩
      · exact .inr ⟨r, first, second⟩
      · exact absurd (isNew ▸ first) (old present)
      · exact absurd second (old present')
      · exact .inl (own.trans own'.symm)
  seen := by
    intro chain member r inRefs
    rcases List.mem_map.mp member with ⟨before, present, rfl⟩
    rw [extended before present] at inRefs
    split at inRefs
    · rcases List.mem_cons.mp inRefs with rfl | old
      · exact List.mem_append_right _ List.mem_cons_self
      · exact List.mem_append_left _ (chained.seen before present r old)
    · exact List.mem_append_left _ (chained.seen before present r inRefs)
  ownerless := ownerless

end Chained

/-! ## Messages -/

section runs

variable {H : Type} [Handler H] {b b' : BookBuilder} {e e' : MatchingEngine H} {m m' : Market}
  {msg : Message} {events : List Event} {op : Op} {ret : Ret} {id : OrderId}

/-- A message is told of as `events`. Fills apart, it leaves every order alone but the one
its reference is bound to, and there are fills only after an add or a replace. -/
structure Touches (b : BookBuilder) (e : MatchingEngine H) (msg : Message)
    (e' : MatchingEngine H) (events : List Event) : Prop where
  told : e'.h = Handler.onAll e.h events
  others : ∀ other, (e.lookup other).isSome → b.target msg ≠ some other →
    (∀ t, .trade t ∈ events → t.maker ≠ other) → e'.order other = e.order other
  untraded : msg.type ≠ .add → msg.type ≠ .replace → ∀ t, .trade t ∉ events

theorem touches_nothing : Touches b e msg e [] where
  told := rfl
  others _ _ _ _ := rfl
  untraded _ _ _ := List.not_mem_nil

theorem touches_of_did (holds : e.Holds m) (ownerless : m.Ownerless)
    (did : e.Did m op e' m' ret events) (plain : op.Plain m.nextId id)
    (subject : m.IsOpen id → b.target msg = some id)
    (on : ∀ other, op.OnOrder other → b.target msg = some other)
    (untraded : msg.type ≠ .add → msg.type ≠ .replace → ∀ t, .trade t ∉ events) :
    Touches b e msg e' events := by
  refine ⟨did.told, ?_, untraded⟩
  intro other isSome foreign unfilled
  have isOpen := (holds.isOpen_iff other).mpr isSome
  have names := (did.performs.anonymous ownerless plain).2
  have unnamed (event : Event) (inside : event ∈ events) : ¬ event.Names other := by
    intro named
    rcases names event inside other named with rfl | ⟨t, rfl, maker⟩
    · exact foreign (subject isOpen)
    · exact unfilled t inside maker
  rcases isOpen with ⟨side, px, o, member, rfl⟩ | ⟨o, parked, -⟩
  · have stays := did.performs.keeps member (fun target => foreign (on _ target)) unnamed
    rw [holds.order_eq member, did.holds.order_eq stays]
  · rw [ownerless.unparked] at parked
    cases parked

def Applies (b : BookBuilder) (e : MatchingEngine H) (msg : Message) (chains : List Chain)
    (seen : List UInt64) : Prop :=
  ∃ b' e' m' events, b.apply e msg = some (b', e') ∧ e'.Holds m' ∧
    Chained b' chains (seen ++ introduced msg) m' ∧ Touches b e msg e' events

section messages

variable {chains : List Chain} {seen : List UInt64} (chained : Chained b chains seen m)
  (holds : e.Holds m)
include chained

theorem Chained.ignore (holds : e.Holds m) (ignored : b.apply e msg = some (b, e)) :
    Applies b e msg chains seen :=
  ⟨b, e, m, [], ignored, holds, chained.closes (introduced msg) (fun _ isOpen => isOpen)
    (Nat.le_refl _) chained.ownerless, touches_nothing⟩

theorem Chained.closing (plain : op.Plain m.nextId id) (brings : ¬ op.IsSubmit)
    (did : e.Did m op e' m' ret events) (more : List UInt64) :
    (∀ other, m'.IsOpen other → m.IsOpen other) ∧ Chained b chains (seen ++ more) m' := by
  have isOpen (other : OrderId) (after : m'.IsOpen other) : m.IsOpen other :=
    (did.performs.isOpen_origin after).resolve_right fun submitted => brings submitted.1
  exact ⟨isOpen, chained.closes more isOpen did.performs.nextId_le
    (did.performs.anonymous chained.ownerless plain).1⟩

theorem Chained.rests_of_open (isOpen : m.IsOpen id) : m.Rests id := by
  rcases isOpen with resting | ⟨o, parked, -⟩
  · exact resting
  · rw [chained.ownerless.unparked] at parked
    cases parked

include holds

theorem Chained.apply_reduce (kind : msg.type = .execute ∨ msg.type = .cancel) :
    Applies b e msg chains seen := by
  have valid := holds.valid
  have target : b.target msg = b.refmap msg.ref := by
    rcases kind with kind | kind <;> simp only [BookBuilder.target, kind]
  cases known : b.refmap msg.ref with
  | none =>
      apply chained.ignore holds
      rcases kind with kind | kind <;> simp only [BookBuilder.apply, kind, known]
  | some id =>
      rcases holds.reduce id msg.qty with ⟨e', ok, m', events, called, did⟩
      rcases chained.closing (.order .reduce) not_false did (introduced msg) with ⟨isOpen, after⟩
      have touches : Touches b e msg e' events := by
        refine touches_of_did holds chained.ownerless did (.order .reduce)
          (fun _ => target.trans known) (fun other on => ?_) fun _ _ t => ?_
        · cases on
          exact target.trans known
        · exact did.performs.untraded valid chained.ownerless .reduce nofun
      have applied : b.apply e msg = some
          (if ok then b else { b with refmap := b.refmap.erase msg.ref }, e') := by
        rcases kind with kind | kind <;>
          simp only [BookBuilder.apply, kind, known, called, Option.bind_eq_bind,
            Option.bind_some]
      refine ⟨_, e', m', events, applied, did.holds, ?_, touches⟩
      cases ok with
      | true => exact after
      | false =>
          have declined := (did.performs.answered valid .reduce).mp rfl
          exact after.forget known fun still => declined (chained.rests_of_open (isOpen id still))

theorem Chained.apply_delete (kind : msg.type = .delete) : Applies b e msg chains seen := by
  have valid := holds.valid
  have target : b.target msg = b.refmap msg.ref := by simp only [BookBuilder.target, kind]
  cases known : b.refmap msg.ref with
  | none =>
      apply chained.ignore holds
      simp only [BookBuilder.apply, kind, known]
  | some id =>
      rcases holds.cancel id with ⟨e', ok, m', events, called, did⟩
      rcases chained.closing (.order .cancel) not_false did (introduced msg) with ⟨isOpen, after⟩
      refine ⟨_, e', m', events, ?_, did.holds, after.forget known fun still => ?_, ?_⟩
      · simp only [BookBuilder.apply, kind, known, called, Option.bind_eq_bind, Option.bind_some]
      · have withdrawn := (did.performs.withdraws valid holds.settled (isOpen id still)).2
        exact ((withdrawn.isOpen id).mp still).2 rfl
      · refine touches_of_did holds chained.ownerless did (.order .cancel)
          (fun _ => target.trans known) (fun other on => ?_) fun _ _ t => ?_
        · cases on
          exact target.trans known
        · exact did.performs.untraded valid chained.ownerless .cancel nofun

theorem Chained.apply_add (kind : msg.type = .add) (fresh : msg.ref ∉ seen) :
    Applies b e msg (chainsAfter e msg chains) seen := by
  have valid := holds.valid
  rcases holds.submitLimit msg.side msg.price msg.qty .gtc 0 .cancelTaker with
    ⟨e', id, m', events, called, did⟩
  have touches : Touches b e msg e' events :=
    touches_of_did holds chained.ownerless did .limit (fun isOpen => absurd isOpen valid.fresh)
      (fun other on => nomatch on) (fun notAdd => absurd kind notAdd)
  rcases did.performs.entered holds.settled with ⟨rfl, rfl⟩ | ⟨rfl, nextId⟩
  · refine ⟨b, e', m', events, ?_, did.holds, ?_, touches⟩
    · simp only [BookBuilder.apply, kind, called]
      rfl
    · simp only [chainsAfter, kind, called]
      exact chained.closes (introduced msg) (fun _ isOpen => isOpen) (Nat.le_refl _)
        chained.ownerless
  · have accepted : m.nextId ≠ invalidOrderId := Nat.ne_of_gt valid.started
    have intro : introduced msg = [msg.ref] := by simp [introduced, kind]
    refine ⟨{ b with refmap := b.refmap.insert msg.ref m.nextId }, e', m', events, ?_, did.holds,
      ?_, touches⟩
    · simp only [BookBuilder.apply, kind, called, Option.bind_eq_bind, Option.bind_some,
        if_pos accepted]
    · simp only [chainsAfter, kind, called, if_pos accepted, intro]
      refine chained.begin fresh (fun other isOpen => ?_) nextId
        (did.performs.anonymous chained.ownerless .limit).1
      exact (did.performs.isOpen_origin isOpen).imp_right And.right

theorem Chained.replaced_foreign {chain : Chain} (member : chain ∈ chains)
    (foreign : b.refmap msg.ref ≠ some chain.id) : chain.replaced e msg = chain := by
  unfold Chain.replaced
  apply if_neg
  rintro ⟨head, agreed⟩
  rcases holds.modify chain.id msg.price msg.qty with ⟨e', ok, m', events, called, did⟩
  rw [called] at agreed
  cases Option.some.inj agreed
  have accepted := mt (did.performs.answered holds.valid .modify).mpr Bool.noConfusion
  exact foreign (chained.known_of_open member (Market.isOpen_of_accepted .modify accepted) head)

theorem Chained.replaced_known {ok : Bool} (known : b.refmap msg.ref = some id)
    (called : e.modify id msg.price msg.qty = some (e', ok)) {chain : Chain}
    (member : chain ∈ chains) : chain.replaced e msg =
      if ok = true ∧ chain.id = id then { chain with refs := msg.newRef :: chain.refs }
      else chain := by
  by_cases own : chain.id = id
  · rcases chained.last msg.ref id known with ⟨chain', member', own', head⟩
    cases chained.apart chain' member' chain member (.inl (own'.trans own.symm))
    rw [Chain.replaced, own, called]
    cases ok <;> simp [head]
  · rw [if_neg fun both => own both.2]
    exact chained.replaced_foreign holds member fun same =>
      own (Option.some.inj (same.symm.trans known))

theorem Chained.apply_replace (kind : msg.type = .replace) (fresh : msg.newRef ∉ seen) :
    Applies b e msg (chains.map (Chain.replaced e msg)) seen := by
  have target : b.target msg = b.refmap msg.ref := by simp only [BookBuilder.target, kind]
  cases known : b.refmap msg.ref with
  | none =>
      have same : chains.map (Chain.replaced e msg) = chains :=
        (List.map_congr_left fun chain member =>
          chained.replaced_foreign holds member (by simp [known])).trans (List.map_id chains)
      rw [same]
      apply chained.ignore holds
      simp only [BookBuilder.apply, kind, known]
  | some id =>
      rcases holds.modify id msg.price msg.qty with ⟨e', ok, m', events, called, did⟩
      rcases chained.closing (.order .modify) not_false did (introduced msg) with ⟨isOpen, after⟩
      have touches : Touches b e msg e' events := by
        refine touches_of_did holds chained.ownerless did (.order .modify)
          (fun _ => target.trans known) (fun other on => ?_) fun _ notReplace =>
            absurd kind notReplace
        cases on
        exact target.trans known
      cases ok with
      | false =>
          have same : chains.map (Chain.replaced e msg) = chains := by
            refine (List.map_congr_left fun chain member => ?_).trans (List.map_id chains)
            rw [chained.replaced_known holds known called member, if_neg fun both => nomatch both.1]
            rfl
          refine ⟨b, e', m', events, ?_, did.holds, same.symm ▸ after, touches⟩
          simp only [BookBuilder.apply, kind, known, called, Option.bind_eq_bind,
            Option.bind_some, Bool.false_eq_true, if_false]
      | true =>
          have intro : introduced msg = [msg.newRef] := by simp [introduced, kind]
          have extended (chain : Chain) (member : chain ∈ chains) : chain.replaced e msg =
              if chain.id = id then { chain with refs := msg.newRef :: chain.refs }
              else chain := by
            rw [chained.replaced_known holds known called member]
            simp only [true_and]
          refine ⟨_, e', m', events, ?_, did.holds, intro ▸ chained.rebind known fresh extended
            isOpen did.performs.nextId_le after.ownerless, touches⟩
          simp only [BookBuilder.apply, kind, known, called, Option.bind_eq_bind,
            Option.bind_some, if_true]

theorem Chained.apply_session (plain : op.Plain m.nextId invalidOrderId) (brings : ¬ op.IsSubmit)
    (off : ∀ other, ¬ op.OnOrder other) (changes : op = .halt ∨ op = .resume)
    (apply : b.apply e msg = ((e.step op).map Prod.fst).bind fun e => some (b, e)) :
    Applies b e msg chains seen := by
  rcases holds.step op with ⟨e', ret, m', events, stepped, did⟩
  have invalid : ¬ m.IsOpen invalidOrderId := fun isOpen =>
    Nat.lt_irrefl _ (holds.valid.issued _ isOpen).1
  refine ⟨b, e', m', events, ?_, did.holds, (chained.closing plain brings did _).2,
    touches_of_did holds chained.ownerless did plain (fun isOpen => absurd isOpen invalid)
      (fun other on => absurd on (off other)) fun _ _ t =>
        did.performs.untraded_session chained.ownerless changes⟩
  rw [apply, stepped]
  rfl

theorem Chained.apply_action (kind : msg.type = .action) : Applies b e msg chains seen := by
  by_cases halts : msg.state = 'H'.toUInt8
  · refine chained.apply_session holds .halt not_false nofun (.inl rfl) ?_
    simp only [BookBuilder.apply, kind, if_pos halts]
    rfl
  by_cases trades : msg.state = 'T'.toUInt8
  · refine chained.apply_session holds .resume not_false nofun (.inr rfl) ?_
    simp only [BookBuilder.apply, kind, if_neg halts, if_pos trades]
    rfl
  · apply chained.ignore holds
    simp only [BookBuilder.apply, kind, if_neg halts, if_neg trades]

theorem Chained.apply (msg : Message) (fresh : ∀ ref ∈ introduced msg, ref ∉ seen) :
    Applies b e msg (chainsAfter e msg chains) seen := by
  cases kind : msg.type with
  | add => exact chained.apply_add holds kind (fresh _ (by simp [introduced, kind]))
  | execute =>
      simp only [chainsAfter, kind]
      exact chained.apply_reduce holds (.inl kind)
  | cancel =>
      simp only [chainsAfter, kind]
      exact chained.apply_reduce holds (.inr kind)
  | delete =>
      simp only [chainsAfter, kind]
      exact chained.apply_delete holds kind
  | replace =>
      simp only [chainsAfter, kind]
      exact chained.apply_replace holds kind (fresh _ (by simp [introduced, kind]))
  | action =>
      simp only [chainsAfter, kind]
      exact chained.apply_action holds kind
  | other =>
      simp only [chainsAfter, kind]
      apply chained.ignore holds
      simp only [BookBuilder.apply, kind]

end messages

/-- The chains go on with the rest of the feed. -/
theorem Chained.applyAll {chains : List Chain} {seen : List UInt64}
    (chained : Chained b chains seen m)
    (holds : e.Holds m) (feed : List Message) (unique : UniqueRefs feed)
    (fresh : ∀ ref ∈ feed.flatMap introduced, ref ∉ seen) :
    ∃ b' e' m', b.applyAll e feed = some (b', e') ∧ e'.Holds m' ∧
      Chained b' (chainsOf b e chains feed) (seen ++ feed.flatMap introduced) m' := by
  induction feed generalizing b e m chains seen with
  | nil => exact ⟨b, e, m, rfl, holds, by simpa [chainsOf] using chained⟩
  | cons msg feed induction =>
      rw [UniqueRefs, List.flatMap_cons, List.nodup_append] at unique
      rw [List.flatMap_cons] at fresh
      rcases chained.apply holds msg fun ref inMsg =>
          fresh ref (List.mem_append_left _ inMsg) with
        ⟨b₁, e₁, m₁, events, applied, holds₁, chained₁, -⟩
      have fresh₁ (ref : UInt64) (later : ref ∈ feed.flatMap introduced) :
          ref ∉ seen ++ introduced msg := by
        rw [List.mem_append, not_or]
        exact ⟨fresh ref (List.mem_append_right _ later),
          fun now => unique.2.2 ref now ref later rfl⟩
      rcases induction chained₁ holds₁ unique.2.1 fresh₁ with
        ⟨b', e', m', applied', holds', chained'⟩
      refine ⟨b', e', m', ?_, holds', ?_⟩
      · simp only [BookBuilder.applyAll, applied, Option.bind_eq_bind, Option.bind_some, applied']
      · rw [List.flatMap_cons, ← List.append_assoc]
        simp only [chainsOf, applied]
        exact chained'

/-- Whatever a feed that never reuses a reference has lost or repeated, the builder knows
every open order by one reference, the last of its chain, and a next message touches no
order but the one its reference is bound to, other than by filling it. -/
theorem applyAll_reachable (band : Band) (h : H) (expectedOrders : Nat) (feed : List Message)
    (unique : UniqueRefs feed) :
    ∃ b e, ({} : BookBuilder).applyAll (.new band h expectedOrders) feed = some (b, e) ∧
      (∀ id, (e.lookup id).isSome → ∃ ref, (∀ other, b.refmap other = some id ↔ other = ref) ∧
        ∃ chain ∈ chainsOf {} (.new band h expectedOrders) [] feed,
          chain.id = id ∧ chain.refs.head? = some ref) ∧
      (∀ chain ∈ chainsOf {} (.new band h expectedOrders) [] feed,
        ∀ chain' ∈ chainsOf {} (.new band h expectedOrders) [] feed,
          chain.Meets chain' → chain = chain') ∧
      ∀ msg, UniqueRefs (feed ++ [msg]) →
        ∃ b' e' events, b.apply e msg = some (b', e') ∧ Touches b e msg e' events := by
  have start := MatchingEngine.holds_new band h expectedOrders
  rcases (Chained.empty band).applyAll start feed unique (fun _ _ => List.not_mem_nil) with
    ⟨b, e, m, applied, holds, chained⟩
  refine ⟨b, e, applied, fun id isSome => ?_, chained.apart, fun msg unique' => ?_⟩
  · rcases chained.bound id ((holds.isOpen_iff id).mpr isSome) with ⟨ref, known⟩
    refine ⟨ref, fun other => ⟨fun known' => chained.unique known' known, ?_⟩,
      chained.last ref id known⟩
    rintro rfl
    exact known
  · rw [UniqueRefs, List.flatMap_append, List.flatMap_singleton, List.nodup_append] at unique'
    rcases chained.apply holds msg fun ref inMsg before =>
        unique'.2.2 ref (by simpa using before) ref inMsg rfl with
      ⟨b', e', m', events, applied', -, -, touches⟩
    exact ⟨b', e', events, applied', touches⟩

end runs

/-- An order that is added, replaced and then deleted. -/
theorem applyAll_reachable_replaced :
    ∃ b e, ({} : BookBuilder).applyAll
        (.new ⟨1, 10000, by decide, by decide, by decide⟩ () 16)
        [{ type := .add, ref := 999, side := .buy, qty := 5, price := 100 },
         { type := .replace, ref := 999, newRef := 1000, price := 101, qty := 5 }] = some (b, e) ∧
      ∃ b' e' events, b.apply e { type := .delete, ref := 1000 } = some (b', e') ∧
        Touches b e { type := .delete, ref := 1000 } e' events := by
  rcases applyAll_reachable ⟨1, 10000, by decide, by decide, by decide⟩ () 16
    [{ type := .add, ref := 999, side := .buy, qty := 5, price := 100 },
     { type := .replace, ref := 999, newRef := 1000, price := 101, qty := 5 }]
    (by decide) with ⟨b, e, applied, -, -, touches⟩
  exact ⟨b, e, applied, touches _ (by decide)⟩

end Itch

end Matchbook
