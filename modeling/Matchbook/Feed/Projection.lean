import Matchbook.Feed.Routing

namespace Matchbook

/-! # Each book is a book of its own

With every reference introduced once, the orders of one symbol are never found
under the references of another, and the venue does in each book what a builder
of that book alone does with the messages about it. -/

namespace Itch

variable {H : Type} [Handler H] [Inhabited H] {b b' : VenueBookBuilder} {v v' : Venue H}
  {s : SymbolId} {e e' : MatchingEngine H} {m : Message} {feed : List Message}
  {name : List UInt8} {mine : UInt64 → Bool} {seen : List UInt64}

def named (name stock : List UInt8) : Bool := Venue.pad stock == Venue.pad name

/-- The references of a symbol's orders after a feed. -/
def refsAfter (names : List UInt8 → Bool) (mine : UInt64 → Bool) : List Message → UInt64 → Bool
  | [] => mine
  | m :: feed => refsAfter names (mineAfter names mine m) feed

namespace VenueBookBuilder

/-- The adds of a feed whose reference is not mapped afterwards. -/
def unmapped (b : VenueBookBuilder) (v : Venue H) : List Message → Nat
  | [] => 0
  | m :: feed =>
    match b.apply v m with
    | none => 0
    | some (b, v) =>
        (if m.type = .add ∧ b.refmap m.ref = none then 1 else 0) + b.unmapped v feed

structure Mapped (b : VenueBookBuilder) (v : Venue H) (seen : List UInt64) : Prop extends
    b.Settled v where
  off : b.autoBand = 0
  seen : ∀ ref loc, b.refmap ref = some loc → ref ∈ seen

theorem Mapped.step (mapped : b.Mapped v seen) (fresh : ∀ ref ∈ introduced m, ref ∉ seen) :
    ∃ b' v', b.apply v m = some (b', v') ∧ b'.Mapped v' (seen ++ introduced m) ∧
      v'.byName = v.byName ∧
      b'.dropped = b.dropped + (if m.type = .add ∧ b'.refmap m.ref = none then 1 else 0) ∧
      ((b.target v m = none ∧ v' = v ∧ b'.refmap = b.refmap) ∨
        ∃ s e e', b.target v m = some s ∧ v.engines[s]? = some e ∧ v' = v.setEngine s e' ∧
          b.Routes b' s e e' m) := by
  have unknown ref (member : ref ∈ introduced m) : b.refmap ref = none := by
    cases known : b.refmap ref with
    | none => rfl
    | some loc => exact absurd (mapped.seen ref loc known) (fresh ref member)
  cases goes : b.target v m with
  | none =>
      rcases apply_unrouted (fun _ => mapped.off) goes with ⟨b', applied, refmap, autoBand, dropped⟩
      refine ⟨b', v, applied, ?_, rfl, ?_, .inl ⟨rfl, rfl, refmap⟩⟩
      · exact {
          operating := mapped.operating
          off := by rw [autoBand, mapped.off]
          placed := by
            rw [refmap]
            exact mapped.placed
          seen := by
            rw [refmap]
            intro ref loc known
            exact List.mem_append_left _ (mapped.seen ref loc known) }
      · rw [dropped, refmap]
        cases kind : m.type with
        | add => simp [unknown m.ref (by simp [introduced, kind])]
        | _ => simp
  | some s =>
      rcases mapped.target_registered goes with ⟨name, registered⟩
      rcases apply_routes mapped.toSettled goes with ⟨e, b', e', present, applied, routes⟩
      refine ⟨b', v.setEngine s e', applied, ?_, rfl, (routes.elsewhere unknown).2,
        .inr ⟨s, e, e', rfl, present, rfl, routes⟩⟩
      exact {
        mapped.routes registered routes with
        off := by rw [routes.autoBand, mapped.off]
        seen := by
          intro ref loc known
          rcases routes.refs ref loc known with old | ⟨new, -⟩
          · exact List.mem_append_left _ (mapped.seen ref loc old)
          · exact List.mem_append_right _ new }

structure Owned (b : VenueBookBuilder) (v : Venue H) (name : List UInt8) (s : SymbolId)
    (mine : UInt64 → Bool) (seen : List UInt64) : Prop where
  registered : v.find name = some s
  own : ∀ ref loc, b.refmap ref = some loc → (mine ref = true ↔ loc.sym = s)
  seen : ∀ ref, mine ref = true → ref ∈ seen

omit [Handler H] [Inhabited H] in
theorem Owned.concerns_iff (owned : b.Owned v name s mine seen) (operating : v.Operating)
    {other : SymbolId} (goes : b.target v m = some other) :
    concerns (named name) mine m = true ↔ other = s := by
  unfold target at goes
  unfold concerns
  cases kind : m.type with
  | add | action =>
      have found : v.find m.stock = some other := by simpa [kind] using goes
      simp only [named, beq_iff_eq]
      constructor
      · intro same
        have here := owned.registered
        rw [Venue.find, ← same] at here
        exact Option.some.inj (found.symm.trans here)
      · intro same
        subst same
        exact operating.distinct _ _ other found owned.registered
  | execute | cancel | delete | replace =>
      simp only [kind, Option.map_eq_some_iff] at goes
      rcases goes with ⟨loc, known, here⟩
      rw [← here]
      exact owned.own m.ref loc known
  | other => simp [kind] at goes

omit [Inhabited H] in
theorem Owned.apply_view (owned : b.Owned v name s mine seen) (nowhere : b.target v m = none)
    (own : concerns (named name) mine m = true) (e : MatchingEngine H) :
    (b.view s).apply e m = some (b.view s, e) := by
  unfold target at nowhere
  unfold concerns at own
  cases kind : m.type with
  | add | action =>
      have same : Venue.pad m.stock = Venue.pad name := by simpa [kind, named] using own
      have unknown : v.find m.stock = none := by simpa [kind] using nowhere
      rw [Venue.find, same] at unknown
      exact absurd (owned.registered.symm.trans unknown) (Option.some_ne_none s)
  | execute | cancel | delete | replace =>
      have unknown : b.refmap m.ref = none := by simpa [kind] using nowhere
      simp [BookBuilder.apply, kind, view, unknown]
  | other => simp [kind] at own

theorem Owned.step (owned : b.Owned v name s mine seen) (mapped : b.Mapped v seen)
    (fresh : ∀ ref ∈ introduced m, ref ∉ seen) (applied : b.apply v m = some (b', v'))
    (present : v.engines[s]? = some e) :
    b'.Owned v' name s (mineAfter (named name) mine m) (seen ++ introduced m) ∧
      ∃ e', v'.engines[s]? = some e' ∧
        if concerns (named name) mine m then (b.view s).apply e m = some (b'.view s, e')
        else b'.view s = b.view s ∧ e' = e := by
  rcases mapped.step fresh with ⟨b₁, v₁, applied₁, -, byName, -, outcome⟩
  rcases Prod.mk.inj (Option.some.inj (applied.symm.trans applied₁)) with ⟨sameB, sameV⟩
  subst sameB sameV
  have later ref (mine' : mineAfter (named name) mine m ref = true) :
      ref ∈ seen ++ introduced m := by
    simp only [mineAfter, Bool.or_eq_true, Bool.and_eq_true, List.contains_eq_mem,
      decide_eq_true_eq] at mine'
    rcases mine' with old | ⟨-, new⟩
    · exact List.mem_append_left _ (owned.seen ref old)
    · exact List.mem_append_right _ new
  have kept ref (old : ref ∈ seen) : mineAfter (named name) mine m ref = mine ref := by
    have notNew : ref ∉ introduced m := fun new => fresh ref new old
    simp [mineAfter, notNew]
  rcases outcome with ⟨nowhere, rfl, refmap⟩ | ⟨other, e₀, e', goes, found, rfl, routes⟩
  · have sameView : b'.view s = b.view s := by rw [view, view, refmap]
    constructor
    · exact {
        registered := owned.registered
        own := by
          rw [refmap]
          intro ref loc known
          rw [kept ref (mapped.seen ref loc known)]
          exact owned.own ref loc known
        seen := later }
    · refine ⟨e, present, ?_⟩
      split
      case isTrue own => rw [sameView, owned.apply_view nowhere own]
      case isFalse => exact ⟨sameView, rfl⟩
  · have about := owned.concerns_iff mapped.operating goes
    have inside := (Array.getElem?_eq_some_iff.1 found).1
    constructor
    · exact {
        registered := owned.registered
        own := by
          intro ref loc known
          rcases routes.refs ref loc known with old | ⟨new, here⟩
          · rw [kept ref (mapped.seen ref loc old)]
            exact owned.own ref loc old
          · have notMine : mine ref = false := by
              cases isMine : mine ref with
              | false => rfl
              | true => exact absurd (owned.seen ref isMine) (fresh ref new)
            simp only [mineAfter, notMine, Bool.false_or, Bool.and_eq_true, List.contains_eq_mem,
              new,
              decide_true, and_true, here]
            exact about
        seen := later }
    · rw [Venue.setEngine_engines inside]
      by_cases here : s = other
      · subst here
        rw [if_pos rfl]
        rw [found] at present
        rw [← Option.some.inj present]
        refine ⟨e', rfl, ?_⟩
        rw [if_pos (about.2 rfl)]
        exact routes.own
      · rw [if_neg here]
        have unknown ref (member : ref ∈ introduced m) : b.refmap ref = none := by
          cases known : b.refmap ref with
          | none => rfl
          | some loc => exact absurd (mapped.seen ref loc known) (fresh ref member)
        refine ⟨e, present, ?_⟩
        rw [if_neg (fun own => here (about.1 own).symm)]
        exact ⟨(routes.elsewhere unknown).1 s here, rfl⟩

/-! ## Whole feeds -/

omit [Handler H] [Inhabited H] in
theorem fresh_of_nodup (unique : (seen ++ (m :: feed).flatMap introduced).Nodup) :
    (∀ ref ∈ introduced m, ref ∉ seen) ∧
      ((seen ++ introduced m) ++ feed.flatMap introduced).Nodup := by
  rw [List.flatMap_cons, ← List.append_assoc] at unique
  refine ⟨?_, unique⟩
  intro ref new old
  exact (List.nodup_append.1 (List.nodup_append.1 unique).1).2.2 ref old ref new rfl

theorem Mapped.run (mapped : b.Mapped v seen)
    (unique : (seen ++ feed.flatMap introduced).Nodup) :
    ∃ b' v', b.applyAll v feed = some (b', v') ∧
      b'.Mapped v' (seen ++ feed.flatMap introduced) ∧ v'.byName = v.byName ∧
      b'.dropped = b.dropped + UInt64.ofNat (b.unmapped v feed) := by
  induction feed generalizing b v seen with
  | nil => exact ⟨b, v, rfl, by simpa using mapped, rfl, by simp [unmapped]⟩
  | cons m feed induction =>
      rcases fresh_of_nodup unique with ⟨fresh, rest⟩
      rcases mapped.step fresh with ⟨b₁, v₁, applied, mapped₁, byName₁, dropped₁, -⟩
      rcases induction mapped₁ rest with ⟨b', v', ran, mapped', byName', dropped'⟩
      refine ⟨b', v', by rw [applyAll, applied]; exact ran, ?_, byName'.trans byName₁, ?_⟩
      · rwa [List.flatMap_cons, ← List.append_assoc]
      · rw [dropped', dropped₁, unmapped, applied]
        simp only
        rw [UInt64.ofNat_add, UInt64.add_assoc]
        split <;> rfl

theorem Owned.run (owned : b.Owned v name s mine seen) (mapped : b.Mapped v seen)
    (unique : (seen ++ feed.flatMap introduced).Nodup)
    (ran : b.applyAll v feed = some (b', v')) (present : v.engines[s]? = some e) :
    b'.Owned v' name s (refsAfter (named name) mine feed) (seen ++ feed.flatMap introduced) ∧
      ∃ e', v'.engines[s]? = some e' ∧
        (b.view s).applyAll e (about (named name) mine feed) = some (b'.view s, e') := by
  induction feed generalizing b v seen mine e with
  | nil =>
      rcases Prod.mk.inj (Option.some.inj ran) with ⟨rfl, rfl⟩
      exact ⟨by simpa [refsAfter] using owned, e, present, rfl⟩
  | cons m feed induction =>
      rcases fresh_of_nodup unique with ⟨fresh, rest⟩
      rcases mapped.step fresh with ⟨b₁, v₁, applied, mapped₁, -⟩
      rcases owned.step mapped fresh applied present with ⟨owned₁, e₁, present₁, own⟩
      rw [applyAll, applied] at ran
      rcases induction owned₁ mapped₁ rest ran present₁ with ⟨owned', e', present', lone⟩
      constructor
      · rwa [List.flatMap_cons, ← List.append_assoc]
      · refine ⟨e', present', ?_⟩
        rw [about]
        split at own
        case isTrue concerned =>
            rw [if_pos concerned, BookBuilder.applyAll, own]
            exact lone
        case isFalse foreign =>
            rw [if_neg foreign, ← own.1, ← own.2]
            exact lone

/-! ## From registration on -/

section registered

variable (symbols : List (List UInt8 × Band × Nat))

omit [Handler H] in
theorem mapped_new : Mapped { autoBand := 0 } ((Venue.empty : Venue H).addSymbols symbols) [] where
  operating := Venue.operating_empty.addSymbols symbols
  off := rfl
  placed := nofun
  seen := nofun

omit [Handler H] in
theorem owned_new (registered : ((Venue.empty : Venue H).addSymbols symbols).find name = some s) :
    Owned { autoBand := 0 } ((Venue.empty : Venue H).addSymbols symbols) name s
      (fun _ => false) [] where
  registered := registered
  own := nofun
  seen := nofun

omit [Handler H] in
theorem find_new (registered : ((Venue.empty : Venue H).addSymbols symbols).find name = some s) :
    ∃ entry ∈ symbols, Venue.pad entry.1 = Venue.pad name ∧
      ((Venue.empty : Venue H).addSymbols symbols).engines[s]? =
        some (.new entry.2.1 default entry.2.2) := by
  rcases Venue.find_addSymbols symbols registered with before | listed
  · cases before
  · exact listed

/-- Every book of the venue is what a builder of its own makes of the messages about its
symbol, messages about no symbol of the venue change no book, and `dropped` counts the adds
that were not mapped. -/
theorem applyAll_projects (unique : UniqueRefs feed) :
    ∃ b v, VenueBookBuilder.applyAll { autoBand := 0 } ((Venue.empty : Venue H).addSymbols symbols)
        feed = some (b, v) ∧
      (∀ entry ∈ symbols, ∃ s band expectedOrders e,
        ((Venue.empty : Venue H).addSymbols symbols).find entry.1 = some s ∧
        ((Venue.empty : Venue H).addSymbols symbols).engines[s]? =
          some (.new band default expectedOrders) ∧
        v.engines[s]? = some e ∧
        BookBuilder.applyAll {} (.new band default expectedOrders)
          (about (named entry.1) (fun _ => false) feed) = some (b.view s, e)) ∧
      (∀ m, (∀ entry ∈ symbols,
          concerns (named entry.1) (refsAfter (named entry.1) (fun _ => false) feed) m = false) →
        ∃ b', b.apply v m = some (b', v)) ∧
      (unmapped { autoBand := 0 } ((Venue.empty : Venue H).addSymbols symbols) feed < 2 ^ 64 →
        b.dropped.toNat =
          unmapped { autoBand := 0 } ((Venue.empty : Venue H).addSymbols symbols) feed) := by
  have mapped := mapped_new (H := H) symbols
  rcases mapped.run unique with ⟨b, v, ran, mapped', byName, dropped⟩
  refine ⟨b, v, ran, ?_, ?_, ?_⟩
  · intro entry listed
    rcases Venue.exists_addSymbols (v := (Venue.empty : Venue H)) symbols listed with ⟨s, found⟩
    rcases find_new symbols found with ⟨first, -, -, engine⟩
    rcases (owned_new symbols found).run mapped unique ran engine with ⟨-, e, present, lone⟩
    exact ⟨s, first.2.1, first.2.2, e, found, engine, present, lone⟩
  · intro m foreign
    have nowhere : b.target v m = none := by
      cases goes : b.target v m with
      | none => rfl
      | some s =>
          rcases mapped'.target_registered goes with ⟨name, registered⟩
          rw [Venue.find, byName] at registered
          rcases find_new symbols registered with ⟨entry, listed, same, engine⟩
          have found : ((Venue.empty : Venue H).addSymbols symbols).find entry.1 = some s := by
            rw [Venue.find, same]
            exact registered
          have owned := ((owned_new symbols found).run mapped unique ran engine).1
          have own := (owned.concerns_iff mapped'.operating goes).2 rfl
          exact absurd (own.symm.trans (foreign entry listed)) Bool.noConfusion
    rcases apply_unrouted (fun _ => mapped'.off) nowhere with ⟨b', applied, -⟩
    exact ⟨b', applied⟩
  · intro few
    rw [dropped, UInt64.zero_add, UInt64.toNat_ofNat_of_lt' few]

end registered

/-- Two symbols, and an action of a third. -/
theorem applyAll_projects_two :
    ∃ b v, VenueBookBuilder.applyAll { autoBand := 0 } ((Venue.empty : Venue NullHandler).addSymbols
        [(Mcast.mbtest, ⟨1, 200, by decide, by decide, by decide⟩, 16),
         (Mcast.other, ⟨1, 100, by decide, by decide, by decide⟩, 16)])
        [{ type := .add, ref := 1, qty := 5, price := 100, stock := Mcast.mbtest },
         { type := .add, ref := 2, qty := 5, price := 50, stock := Mcast.other },
         { type := .delete, ref := 1 }] = some (b, v) ∧
      ∃ b', b.apply v { type := .action, stock := [65], state := 'H'.toUInt8 } = some (b', v) := by
  rcases applyAll_projects (H := NullHandler)
    [(Mcast.mbtest, ⟨1, 200, by decide, by decide, by decide⟩, 16),
     (Mcast.other, ⟨1, 100, by decide, by decide, by decide⟩, 16)]
    (by decide : UniqueRefs
      [{ type := .add, ref := 1, qty := 5, price := 100, stock := Mcast.mbtest },
       { type := .add, ref := 2, qty := 5, price := 50, stock := Mcast.other },
       { type := .delete, ref := 1 }]) with ⟨b, v, ran, -, foreign, -⟩
  exact ⟨b, v, ran, foreign _ (by decide)⟩

/-! ## The counter is 64 bits wide -/

def stray (ref : UInt64) : Message := { type := .add, ref, stock := Mcast.other }

theorem introduced_stray (refs : List UInt64) : (refs.map stray).flatMap introduced = refs := by
  induction refs with
  | nil => rfl
  | cons ref refs induction =>
      rw [List.map_cons, List.flatMap_cons, induction]
      rfl

theorem applyAll_stray (b : VenueBookBuilder) (off : b.autoBand = 0) (empty : b.refmap = .empty)
    (refs : List UInt64) :
    b.applyAll (Venue.empty : Venue H) (refs.map stray) =
        some ({ b with dropped := b.dropped + UInt64.ofNat refs.length }, Venue.empty) ∧
      b.unmapped (Venue.empty : Venue H) (refs.map stray) = refs.length := by
  induction refs generalizing b with
  | nil => exact ⟨by simp [applyAll], rfl⟩
  | cons ref refs induction =>
      have applied : b.apply (Venue.empty : Venue H) (stray ref) =
          some ({ b with dropped := b.dropped + 1 }, Venue.empty) := by
        simp [apply, stray, Venue.find, Venue.empty, off]
      rcases induction { b with dropped := b.dropped + 1 } off empty with ⟨ran, count⟩
      constructor
      · rw [List.map_cons, applyAll, applied]
        change applyAll { b with dropped := b.dropped + 1 } _ _ = _
        rw [ran]
        simp [UInt64.ofNat_add, UInt64.add_assoc, UInt64.add_comm]
      · rw [List.map_cons, unmapped, applied]
        change _ + unmapped { b with dropped := b.dropped + 1 } _ _ = _
        rw [count, List.length_cons]
        simp [empty, stray, RefMap.empty, Nat.add_comm]

def everyRef : List Message := ((List.range (2 ^ 64)).map UInt64.ofNat).map stray

theorem uniqueRefs_everyRef : UniqueRefs everyRef := by
  rw [UniqueRefs, everyRef, introduced_stray]
  apply List.Nodup.map_on _ List.nodup_range
  intro first small second small' same
  have bits := congrArg UInt64.toNat same
  rwa [UInt64.toNat_ofNat_of_lt' (List.mem_range.1 small),
    UInt64.toNat_ofNat_of_lt' (List.mem_range.1 small')] at bits

/-- The counter of a feed of `2 ^ 64` such adds is back at 0. -/
theorem not_dropped_exact :
    ¬ ∀ (symbols : List (List UInt8 × Band × Nat)) (feed : List Message), UniqueRefs feed →
      ∃ b v, VenueBookBuilder.applyAll { autoBand := 0 }
          ((Venue.empty : Venue NullHandler).addSymbols symbols) feed = some (b, v) ∧
        b.dropped.toNat = unmapped { autoBand := 0 }
          ((Venue.empty : Venue NullHandler).addSymbols symbols) feed := by
  intro exact
  rcases exact [] everyRef uniqueRefs_everyRef with ⟨b, v, ran, count⟩
  rcases applyAll_stray (H := NullHandler) { autoBand := 0 } rfl rfl
    ((List.range (2 ^ 64)).map UInt64.ofNat) with ⟨ran', count'⟩
  rw [Venue.addSymbols, everyRef] at ran count
  rw [ran'] at ran
  rw [count', List.length_map, List.length_range] at count
  have small := b.dropped.toNat_lt
  omega

end VenueBookBuilder

end Itch

end Matchbook
