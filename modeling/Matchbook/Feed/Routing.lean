import Matchbook.Feed.Isolation

namespace Matchbook

/-! # Routing a mixed feed

Seen from one book, a venue is that book with a builder of its own: what the
shared reference map says about the orders of the book. -/

namespace Venue

variable {H : Type} {v : Venue H} {s : SymbolId} {e : MatchingEngine H}

@[simp] theorem setEngine_byName : (v.setEngine s e).byName = v.byName := rfl

@[simp] theorem setEngine_size : (v.setEngine s e).engines.size = v.engines.size := by
  simp [setEngine]

@[simp] theorem find_setEngine (name : List UInt8) :
    (v.setEngine s e).find name = v.find name := rfl

theorem setEngine_engines (inside : s < v.engines.size) (other : SymbolId) :
    (v.setEngine s e).engines[other]? = if other = s then some e else v.engines[other]? := by
  simp only [setEngine, Array.getElem?_setIfInBounds, inside, if_true]
  split
  · rw [if_pos]
    symm
    assumption
  · rw [if_neg]
    exact Ne.symm (by assumption)

theorem setEngine_eq_self (present : v.engines[s]? = some e) : v.setEngine s e = v := by
  rcases Array.getElem?_eq_some_iff.1 present with ⟨inside, same⟩
  have engines : v.engines.setIfInBounds s e = v.engines := by
    rw [← same]
    simp [Array.setIfInBounds, inside]
  rw [setEngine, engines]

structure Operating (v : Venue H) : Prop where
  live : ∀ (s : SymbolId) (e : MatchingEngine H), v.engines[s]? = some e → e.Live
  inside : ∀ key s, v.byName key = some s → s < v.engines.size
  distinct : ∀ key key' s, v.byName key = some s → v.byName key' = some s → key = key'

theorem operating_empty [Inhabited H] : (empty : Venue H).Operating where
  live := by simp [empty]
  inside := nofun
  distinct := nofun

theorem Operating.engine (operating : v.Operating) {key : List UInt8}
    (found : v.byName key = some s) :
    ∃ e, v.engines[s]? = some e ∧ e.Live := by
  have inside := operating.inside key s found
  exact ⟨v.engines[s], Array.getElem?_eq_getElem inside,
    operating.live s _ (Array.getElem?_eq_getElem inside)⟩

theorem Operating.setEngine (operating : v.Operating) (inside : s < v.engines.size)
    (live : e.Live) : (v.setEngine s e).Operating where
  live other e' present := by
    rw [setEngine_engines inside] at present
    split at present
    case isTrue => rwa [← Option.some.inj present]
    case isFalse => exact operating.live other e' present
  inside key other found := by
    rw [setEngine_size]
    exact operating.inside key other found
  distinct := operating.distinct

/-! ## Registration -/

section addSymbol

variable [Inhabited H] (name : List UInt8) (band : Band) (expectedOrders : Nat)

theorem addSymbol_known (known : v.find name = some s) :
    v.addSymbol name band expectedOrders = (s, v) := by
  rw [addSymbol, known]

theorem addSymbol_new (unknown : v.find name = none) :
    v.addSymbol name band expectedOrders = (v.engines.size,
      { byName := Function.update v.byName (pad name) (some v.engines.size)
        engines := v.engines.push (.new band default expectedOrders) }) := by
  rw [addSymbol, unknown]

theorem Operating.addSymbol (operating : v.Operating) :
    (v.addSymbol name band expectedOrders).2.Operating := by
  cases known : v.find name with
  | some s => rwa [addSymbol_known name band expectedOrders known]
  | none =>
      rw [addSymbol_new name band expectedOrders known]
      have below key s (found : v.byName key = some s) := operating.inside key s found
      constructor
      · intro s e present
        rw [Array.getElem?_push] at present
        split at present
        case isTrue =>
            rw [← Option.some.inj present]
            exact MatchingEngine.live_new band default expectedOrders
        case isFalse => exact operating.live s e present
      · intro key s found
        simp only [Function.update_apply] at found
        simp only [Array.size_push]
        split at found
        case isTrue =>
            rw [← Option.some.inj found]
            exact Nat.lt_succ_self _
        case isFalse => exact Nat.lt_succ_of_lt (below key s found)
      · intro key key' s found found'
        simp only [Function.update_apply] at found found'
        split at found <;> split at found'
        case isTrue.isTrue one other => rw [one, other]
        case isTrue.isFalse =>
            rw [← Option.some.inj found] at found'
            exact absurd (below key' _ found') (Nat.lt_irrefl _)
        case isFalse.isTrue =>
            rw [← Option.some.inj found'] at found
            exact absurd (below key _ found) (Nat.lt_irrefl _)
        case isFalse.isFalse => exact operating.distinct key key' s found found'

/-- A registered symbol keeps its book, and a new one has an empty book. -/
theorem find_addSymbol {other : List UInt8}
    (found : (v.addSymbol name band expectedOrders).2.find other = some s) :
    v.find other = some s ∨ pad other = pad name ∧
      (v.addSymbol name band expectedOrders).2.engines[s]? =
        some (.new band default expectedOrders) := by
  cases known : v.find name with
  | some s =>
      rw [addSymbol_known name band expectedOrders known] at found
      exact .inl found
  | none =>
      rw [addSymbol_new name band expectedOrders known] at found ⊢
      simp only [find, Function.update_apply] at found
      split at found
      case isTrue same =>
          right
          rw [← Option.some.inj found]
          simp [same]
      case isFalse => exact .inl found

theorem find_addSymbol_self : ∃ s, (v.addSymbol name band expectedOrders).2.find name = some s := by
  cases known : v.find name with
  | some s => exact ⟨s, by rw [addSymbol_known name band expectedOrders known, known]⟩
  | none =>
      rw [addSymbol_new name band expectedOrders known]
      exact ⟨v.engines.size, by simp [find]⟩

theorem addSymbol_find {other : List UInt8} (found : v.find other = some s) :
    (v.addSymbol name band expectedOrders).2.find other = some s := by
  cases known : v.find name with
  | some s => rwa [addSymbol_known name band expectedOrders known]
  | none =>
      rw [addSymbol_new name band expectedOrders known]
      have different : pad other ≠ pad name := by
        intro same
        rw [find, same] at found
        exact absurd (found.symm.trans known) (Option.some_ne_none s)
      simpa only [find, Function.update_of_ne different] using found

theorem addSymbol_engines (present : v.engines[s]? = some e) :
    (v.addSymbol name band expectedOrders).2.engines[s]? = some e := by
  cases known : v.find name with
  | some s => rwa [addSymbol_known name band expectedOrders known]
  | none =>
      rw [addSymbol_new name band expectedOrders known]
      have inside := (Array.getElem?_eq_some_iff.1 present).1
      rwa [Array.getElem?_push, if_neg (Nat.ne_of_lt inside)]

end addSymbol

section addSymbols

variable [Inhabited H] (symbols : List (List UInt8 × Band × Nat))

theorem Operating.addSymbols (operating : v.Operating) : (v.addSymbols symbols).Operating := by
  induction symbols generalizing v with
  | nil => exact operating
  | cons entry symbols induction => exact induction (operating.addSymbol _ _ _)

theorem addSymbols_find {name : List UInt8} (found : v.find name = some s) :
    (v.addSymbols symbols).find name = some s := by
  induction symbols generalizing v with
  | nil => exact found
  | cons entry symbols induction => exact induction (addSymbol_find _ _ _ found)

theorem addSymbols_engines (present : v.engines[s]? = some e) :
    (v.addSymbols symbols).engines[s]? = some e := by
  induction symbols generalizing v with
  | nil => exact present
  | cons entry symbols induction => exact induction (addSymbol_engines _ _ _ present)

theorem exists_addSymbols {entry : List UInt8 × Band × Nat} (listed : entry ∈ symbols) :
    ∃ s, (v.addSymbols symbols).find entry.1 = some s := by
  induction symbols generalizing v with
  | nil => cases listed
  | cons first symbols induction =>
      rcases List.mem_cons.1 listed with rfl | later
      · rcases find_addSymbol_self (v := v) entry.1 entry.2.1 entry.2.2 with ⟨s, found⟩
        exact ⟨s, addSymbols_find symbols found⟩
      · exact induction later

theorem find_addSymbols {name : List UInt8} (found : (v.addSymbols symbols).find name = some s) :
    v.find name = some s ∨ ∃ entry ∈ symbols, pad entry.1 = pad name ∧
      (v.addSymbols symbols).engines[s]? = some (.new entry.2.1 default entry.2.2) := by
  induction symbols generalizing v with
  | nil => exact .inl found
  | cons first symbols induction =>
      rcases induction found with before | ⟨entry, listed, same, engine⟩
      · rcases find_addSymbol first.1 first.2.1 first.2.2 before with old | ⟨same, engine⟩
        · exact .inl old
        · exact .inr ⟨first, List.mem_cons_self, same.symm, addSymbols_engines symbols engine⟩
      · exact .inr ⟨entry, List.mem_cons_of_mem _ listed, same, engine⟩

end addSymbols

end Venue

namespace Itch

variable {H : Type} [Handler H] {b b' : VenueBookBuilder} {v : Venue H} {s : SymbolId}
  {e e' : MatchingEngine H} {m : Message}

namespace VenueBookBuilder

/-- What the reference map says about the orders of one book. -/
def view (b : VenueBookBuilder) (s : SymbolId) : BookBuilder where
  refmap ref := (b.refmap ref).bind fun loc => if loc.sym = s then some loc.id else none

def target (b : VenueBookBuilder) (v : Venue H) (m : Message) : Option SymbolId :=
  match m.type with
  | .add | .action => v.find m.stock
  | .execute | .cancel | .delete | .replace => (b.refmap m.ref).map Loc.sym
  | .other => none

/-! ## Updates of the reference map -/

section view

variable (b) (refmap : RefMap Loc) (ref : UInt64) (id : OrderId) (other : SymbolId)

theorem view_insert : view { b with refmap := refmap.insert ref ⟨s, id⟩ } s =
    { refmap := (view { b with refmap } s).refmap.insert ref id } := by
  simp only [view, BookBuilder.mk.injEq]
  funext r
  by_cases same : r = ref
  · subst same
    simp [RefMap.insert]
  · simp [RefMap.insert, same]

theorem view_insert_other (different : other ≠ s) (fresh : refmap ref = none) :
    view { b with refmap := refmap.insert ref ⟨s, id⟩ } other = view { b with refmap } other := by
  simp only [view, BookBuilder.mk.injEq]
  funext r
  by_cases same : r = ref
  · subst same
    simp [RefMap.insert, fresh, Ne.symm different]
  · simp [RefMap.insert, same]

theorem view_erase : view { b with refmap := b.refmap.erase ref } s =
    { refmap := (b.view s).refmap.erase ref } := by
  simp only [view, BookBuilder.mk.injEq]
  funext r
  by_cases same : r = ref
  · subst same
    simp [RefMap.erase]
  · simp [RefMap.erase, same]

theorem view_erase_other {loc : Loc} (known : b.refmap ref = some loc)
    (different : other ≠ loc.sym) :
    view { b with refmap := b.refmap.erase ref } other = b.view other := by
  simp only [view, BookBuilder.mk.injEq]
  funext r
  by_cases same : r = ref
  · subst same
    simp [RefMap.erase, known, Ne.symm different]
  · simp [RefMap.erase, same]

end view

structure Routes (b b' : VenueBookBuilder) (s : SymbolId) (e e' : MatchingEngine H)
    (m : Message) : Prop where
  own : (b.view s).apply e m = some (b'.view s, e')
  live : e'.Live
  halted : e'.halted = haltedAfter e.halted m
  autoBand : b'.autoBand = b.autoBand
  refs : ∀ ref loc, b'.refmap ref = some loc →
    b.refmap ref = some loc ∨ (ref ∈ introduced m ∧ loc.sym = s)
  elsewhere : (∀ ref ∈ introduced m, b.refmap ref = none) →
    (∀ other, other ≠ s → b'.view other = b.view other) ∧
      b'.dropped = b.dropped + if m.type = .add ∧ b'.refmap m.ref = none then 1 else 0

theorem enter_routes (kind : m.type = .add) (present : v.engines[s]? = some e) (live : e.Live) :
    ∃ b' e', b.enter v m s = some (b', v.setEngine s e') ∧ b.Routes b' s e e' m := by
  rcases live.submitLimit m.side m.price m.qty .gtc 0 .cancelTaker with
    ⟨e', id, called, live', halted⟩
  have entered : b.enter v m s = some (if id ≠ invalidOrderId then
      { b with refmap := b.refmap.insert m.ref ⟨s, id⟩ } else { b with dropped := b.dropped + 1 },
      v.setEngine s e') := by
    simp [enter, present, called]
  refine ⟨_, e', entered, ?_⟩
  by_cases accepted : id ≠ invalidOrderId
  · rw [if_pos accepted]
    exact {
      own := by simp [BookBuilder.apply, kind, called, accepted, view_insert]
      live := live'
      halted := by simpa [haltedAfter, kind] using halted
      autoBand := rfl
      refs := by
        intro ref loc known
        by_cases same : ref = m.ref
        · subst same
          right
          simp only [RefMap.insert, Function.update_self, Option.some.injEq] at known
          exact ⟨by simp [introduced, kind], by rw [← known]⟩
        · left
          simpa [RefMap.insert, same] using known
      elsewhere := by
        intro fresh
        constructor
        · intro other different
          exact view_insert_other b _ _ _ _ different (fresh m.ref (by simp [introduced, kind]))
        · simp [RefMap.insert] }
  · rw [if_neg accepted]
    exact {
      own := by simp [BookBuilder.apply, kind, called, accepted, view]
      live := live'
      halted := by simpa [haltedAfter, kind] using halted
      autoBand := rfl
      refs := fun _ _ known => .inl known
      elsewhere := by
        intro fresh
        have unmapped := fresh m.ref (by simp [introduced, kind])
        exact ⟨fun _ _ => rfl, by simp [kind, unmapped]⟩ }

theorem Routes.same (noAdd : m.type ≠ .add) (own : (b.view s).apply e m = some (b.view s, e'))
    (live : e'.Live) (halted : e'.halted = haltedAfter e.halted m) : b.Routes b s e e' m where
  own := own
  live := live
  halted := halted
  autoBand := rfl
  refs _ _ known := .inl known
  elsewhere _ := ⟨fun _ _ => rfl, by simp [noAdd]⟩

theorem Routes.erase {loc : Loc} (known : b.refmap m.ref = some loc) (noAdd : m.type ≠ .add)
    (own : (b.view loc.sym).apply e m =
      some ({ refmap := (b.view loc.sym).refmap.erase m.ref }, e'))
    (live : e'.Live) (halted : e'.halted = haltedAfter e.halted m) :
    b.Routes { b with refmap := b.refmap.erase m.ref } loc.sym e e' m where
  own := by rw [view_erase, own]
  live := live
  halted := halted
  autoBand := rfl
  refs ref loc' known' := by
    left
    by_cases same : ref = m.ref
    · simp [RefMap.erase, same] at known'
    · simpa [RefMap.erase, same] using known'
  elsewhere _ := ⟨fun other different => view_erase_other b m.ref other known different,
    by simp [noAdd]⟩

theorem Routes.rebind {loc : Loc} (known : b.refmap m.ref = some loc) (kind : m.type = .replace)
    (own : (b.view loc.sym).apply e m =
      some ({ refmap := ((b.view loc.sym).refmap.erase m.ref).insert m.newRef loc.id }, e'))
    (live : e'.Live) (halted : e'.halted = haltedAfter e.halted m) :
    b.Routes { b with refmap := (b.refmap.erase m.ref).insert m.newRef loc } loc.sym e e' m where
  own := by rw [own, view_insert b _ _ loc.id, view_erase]
  live := live
  halted := halted
  autoBand := rfl
  refs ref loc' known' := by
    by_cases new : ref = m.newRef
    · right
      subst new
      simp only [RefMap.insert, Function.update_self, Option.some.injEq] at known'
      exact ⟨by simp [introduced, kind], by rw [← known']⟩
    · left
      by_cases same : ref = m.ref
      · subst same
        simp [RefMap.insert, RefMap.erase, new] at known'
      · simpa [RefMap.insert, RefMap.erase, new, same] using known'
  elsewhere fresh := by
    have free : b.refmap.erase m.ref m.newRef = none := by
      by_cases same : m.newRef = m.ref
      · simp [RefMap.erase, same]
      · simpa [RefMap.erase, same] using fresh m.newRef (by simp [introduced, kind])
    constructor
    · intro other different
      rw [view_insert_other b _ _ loc.id other different free,
        view_erase_other b m.ref other known different]
    · simp [kind]

structure Settled (b : VenueBookBuilder) (v : Venue H) : Prop where
  operating : v.Operating
  placed : ∀ ref loc, b.refmap ref = some loc → ∃ name, v.find name = some loc.sym

omit [Handler H] in
theorem Settled.target_registered (settled : b.Settled v) (goes : b.target v m = some s) :
    ∃ name, v.find name = some s := by
  unfold target at goes
  cases kind : m.type with
  | add | action => exact ⟨m.stock, by simpa [kind] using goes⟩
  | execute | cancel | delete | replace =>
      simp only [kind, Option.map_eq_some_iff] at goes
      rcases goes with ⟨loc, known, here⟩
      rw [← here]
      exact settled.placed m.ref loc known
  | other => simp [kind] at goes

theorem Settled.routes {name : List UInt8} (settled : b.Settled v)
    (registered : v.find name = some s) (routes : b.Routes b' s e e' m) :
    b'.Settled (v.setEngine s e') where
  operating :=
    settled.operating.setEngine (settled.operating.inside _ s registered) routes.live
  placed ref loc known := by
    rcases routes.refs ref loc known with old | ⟨-, here⟩
    · exact settled.placed ref loc old
    · exact ⟨name, by rw [here]; exact registered⟩

variable [Inhabited H]

theorem apply_routes (settled : b.Settled v) (goes : b.target v m = some s) :
    ∃ e b' e', v.engines[s]? = some e ∧ b.apply v m = some (b', v.setEngine s e') ∧
      b.Routes b' s e e' m := by
  have operating := settled.operating
  have lookup {loc : Loc} (known : b.refmap m.ref = some loc) :
      ∃ e : MatchingEngine H, v.engines[loc.sym]? = some e ∧ e.Live := by
    rcases settled.placed m.ref loc known with ⟨name, found⟩
    exact operating.engine found
  cases kind : m.type with
  | add =>
      have found : v.find m.stock = some s := by simpa [target, kind] using goes
      rcases operating.engine found with ⟨e, present, live⟩
      rcases enter_routes (b := b) kind present live with ⟨b', e', entered, routes⟩
      exact ⟨e, b', e', present, by rw [apply]; simp [kind, found, entered], routes⟩
  | action =>
      have found : v.find m.stock = some s := by simpa [target, kind] using goes
      have noAdd : m.type ≠ .add := by simp [kind]
      rcases operating.engine found with ⟨e, present, live⟩
      by_cases halts : m.state = 'H'.toUInt8
      · rcases live.halt with ⟨e', called, live', halted⟩
        exact ⟨e, b, e', present, by simp [apply, kind, found, present, halts, called],
          .same noAdd (by simp [BookBuilder.apply, kind, halts, called]) live'
            (by simp [haltedAfter, kind, halts, halted])⟩
      by_cases trades : m.state = 'T'.toUInt8
      · have differ : 'T'.toUInt8 ≠ 'H'.toUInt8 := by decide
        rcases live.resume with ⟨e', called, live', halted⟩
        exact ⟨e, b, e', present, by simp [apply, kind, found, present, trades, differ, called],
          .same noAdd (by simp [BookBuilder.apply, kind, trades, differ, called]) live'
            (by simp [haltedAfter, kind, trades, differ, halted])⟩
      · exact ⟨e, b, e, present, by
            rw [Venue.setEngine_eq_self present]
            simp [apply, kind, found, present, halts, trades],
          .same noAdd (by simp [BookBuilder.apply, kind, halts, trades]) live
            (by simp [haltedAfter, kind, halts, trades])⟩
  | execute | cancel =>
      have noAdd : m.type ≠ .add := by simp [kind]
      cases known : b.refmap m.ref with
      | none => simp [target, kind, known] at goes
      | some loc =>
          have here : loc.sym = s := by simpa [target, kind, known] using goes
          subst here
          have seen : (b.view loc.sym).refmap m.ref = some loc.id := by simp [view, known]
          rcases lookup known with ⟨e, present, live⟩
          rcases live.reduce loc.id m.qty with ⟨e', ok, called, live', halted⟩
          have flag : e'.halted = haltedAfter e.halted m :=
            by simpa [haltedAfter, kind] using halted
          cases ok with
          | true =>
              exact ⟨e, b, e', present, by simp [apply, kind, known, present, called],
                .same noAdd (by simp [BookBuilder.apply, kind, seen, called]) live' flag⟩
          | false =>
              exact ⟨e, _, e', present, by simp [apply, kind, known, present, called],
                .erase known noAdd (by simp [BookBuilder.apply, kind, seen, called]) live' flag⟩
  | delete =>
      have noAdd : m.type ≠ .add := by simp [kind]
      cases known : b.refmap m.ref with
      | none => simp [target, kind, known] at goes
      | some loc =>
          have here : loc.sym = s := by simpa [target, kind, known] using goes
          subst here
          have seen : (b.view loc.sym).refmap m.ref = some loc.id := by simp [view, known]
          rcases lookup known with ⟨e, present, live⟩
          rcases live.cancel loc.id with ⟨e', ok, called, live', halted⟩
          have flag : e'.halted = haltedAfter e.halted m :=
            by simpa [haltedAfter, kind] using halted
          exact ⟨e, _, e', present, by simp [apply, kind, known, present, called],
            .erase known noAdd (by simp [BookBuilder.apply, kind, seen, called]) live' flag⟩
  | replace =>
      have noAdd : m.type ≠ .add := by simp [kind]
      cases known : b.refmap m.ref with
      | none => simp [target, kind, known] at goes
      | some loc =>
          have here : loc.sym = s := by simpa [target, kind, known] using goes
          subst here
          have seen : (b.view loc.sym).refmap m.ref = some loc.id := by simp [view, known]
          rcases lookup known with ⟨e, present, live⟩
          rcases live.modify loc.id m.price m.qty with ⟨e', ok, called, live', halted⟩
          have flag : e'.halted = haltedAfter e.halted m :=
            by simpa [haltedAfter, kind] using halted
          cases ok with
          | true =>
              exact ⟨e, _, e', present, by simp [apply, kind, known, present, called],
                .rebind known kind (by simp [BookBuilder.apply, kind, seen, called]) live' flag⟩
          | false =>
              exact ⟨e, b, e', present, by simp [apply, kind, known, present, called],
                .same noAdd (by simp [BookBuilder.apply, kind, seen, called]) live' flag⟩
  | other => simp [target, kind] at goes

theorem apply_unrouted (off : m.type = .add → b.autoBand = 0) (nowhere : b.target v m = none) :
    ∃ b', b.apply v m = some (b', v) ∧ b'.refmap = b.refmap ∧ b'.autoBand = b.autoBand ∧
      b'.dropped = b.dropped + if m.type = .add then 1 else 0 := by
  cases kind : m.type with
  | add =>
      have unknown : v.find m.stock = none := by simpa [target, kind] using nowhere
      exact ⟨{ b with dropped := b.dropped + 1 }, by simp [apply, kind, unknown, off kind],
        rfl, rfl, by simp⟩
  | action =>
      have unknown : v.find m.stock = none := by simpa [target, kind] using nowhere
      exact ⟨b, by simp [apply, kind, unknown], rfl, rfl, by simp⟩
  | execute | cancel | delete | replace =>
      have unknown : b.refmap m.ref = none := by simpa [target, kind] using nowhere
      exact ⟨b, by simp [apply, kind, unknown], rfl, rfl, by simp⟩
  | other => exact ⟨b, by simp [apply, kind], rfl, rfl, by simp⟩

end VenueBookBuilder

end Itch

end Matchbook
