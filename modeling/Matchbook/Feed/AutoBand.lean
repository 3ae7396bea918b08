import Matchbook.Feed.HaltMirror

namespace Matchbook

/-! # Each book that is added on the way is a book of its own

An add of an unknown symbol makes its book and then enters like any other, so between two
messages the venue is one whose books were all there before. -/

namespace Itch

variable {H : Type} [Handler H] [Inhabited H] {b b' : VenueBookBuilder} {v v' v₁ : Venue H}
  {s : SymbolId} {e e' : MatchingEngine H} {m : Message} {feed : List Message}
  {name : List UInt8} {mine : UInt64 → Bool} {seen : List UInt64} {autoBand : Price}

namespace VenueBookBuilder

def enroll (autoBand : Price) (v : Venue H) (m : Message) : Option (Venue H) :=
  if m.type = .add ∧ v.find m.stock = none then
    (firstBand autoBand m.price).map fun band => (v.addSymbol m.stock band expectedOrders).2
  else some v

def closed (b : VenueBookBuilder) : VenueBookBuilder := { b with autoBand := 0 }

omit [Inhabited H] in
theorem enter_closed : (b.enter v m s).map (Prod.map closed id) = b.closed.enter v m s := by
  unfold enter
  cases v.engines[s]? with
  | none => rfl
  | some e =>
      simp only [Option.bind_eq_bind, Option.bind_some]
      cases e.submitLimit m.side m.price m.qty .gtc 0 .cancelTaker with
      | none => rfl
      | some next =>
          simp only [Option.bind_some, Option.map_some, Prod.map_apply, id_eq]
          split <;> rfl

theorem apply_closed (noAdd : m.type ≠ .add) :
    (b.apply v m).map (Prod.map closed id) = b.closed.apply v m := by
  rw [apply, apply]
  cases kind : m.type with
  | add => exact absurd kind noAdd
  | action =>
      dsimp only
      cases v.find m.stock with
      | none => rfl
      | some s =>
          dsimp only [Option.bind_eq_bind]
          cases v.engines[s]? with
          | none => rfl
          | some e =>
              simp only [Option.bind_some]
              split
              case isTrue => cases e.halt <;> rfl
              case isFalse =>
                split
                case isTrue => cases e.resume <;> rfl
                case isFalse => rfl
  | execute | cancel =>
      dsimp only [closed]
      cases b.refmap m.ref with
      | none => rfl
      | some loc =>
          dsimp only [Option.bind_eq_bind]
          cases v.engines[loc.sym]? with
          | none => rfl
          | some e =>
              simp only [Option.bind_some]
              cases e.reduce loc.id m.qty with
              | none => rfl
              | some next =>
                  simp only [Option.bind_some, Option.map_some, Prod.map_apply, id_eq]
                  split <;> rfl
  | delete =>
      dsimp only [closed]
      cases b.refmap m.ref with
      | none => rfl
      | some loc =>
          dsimp only [Option.bind_eq_bind]
          cases v.engines[loc.sym]? with
          | none => rfl
          | some e =>
              simp only [Option.bind_some]
              cases e.cancel loc.id <;> rfl
  | replace =>
      dsimp only [closed]
      cases b.refmap m.ref with
      | none => rfl
      | some loc =>
          dsimp only [Option.bind_eq_bind]
          cases v.engines[loc.sym]? with
          | none => rfl
          | some e =>
              simp only [Option.bind_some]
              cases e.modify loc.id m.price m.qty with
              | none => rfl
              | some next =>
                  simp only [Option.bind_some, Option.map_some, Prod.map_apply, id_eq]
                  split <;> rfl
  | other => rfl

theorem apply_enroll (on : b.autoBand ≠ 0) :
    (b.apply v m).map (Prod.map closed id) =
      (enroll b.autoBand v m).bind fun v₁ => b.closed.apply v₁ m := by
  by_cases kind : m.type = .add
  case neg =>
      rw [enroll, if_neg (fun first => kind first.1), Option.bind_some]
      exact apply_closed kind
  case pos =>
      cases found : v.find m.stock with
      | some s =>
          have there : enroll b.autoBand v m = some v := by simp [enroll, found]
          rw [there, Option.bind_some, apply, apply]
          simp only [kind, found]
          exact enter_closed
      | none =>
          rw [apply, enroll]
          simp only [kind, found, on, if_false, and_self, if_true, Option.bind_eq_bind]
          cases legal : firstBand b.autoBand m.price with
          | none => rfl
          | some band =>
              have registered : (v.addSymbol m.stock band expectedOrders).2.find m.stock =
                  some (v.addSymbol m.stock band expectedOrders).1 := by
                rw [Venue.addSymbol_new m.stock band expectedOrders found]
                simp [Venue.find]
              simp only [Option.bind_some, Option.map_some]
              rw [apply]
              simp only [kind, registered]
              exact enter_closed
structure Enrolls (autoBand : Price) (v : Venue H) (m : Message) (v₁ : Venue H) : Prop where
  kept : ∀ name s, v.find name = some s → v₁.find name = some s
  engines : ∀ (s : SymbolId) (e : MatchingEngine H), v.engines[s]? = some e →
    v₁.engines[s]? = some e
  other : ∀ name, v.find name = none → adds (named name) m = false → v₁.find name = none
  first : ∀ name, v.find name = none → adds (named name) m = true →
    v₁.find name = some v.engines.size ∧ ∃ band, firstBand autoBand m.price = some band ∧
      v₁.engines[v.engines.size]? = some (.new band default expectedOrders)

omit [Handler H] in
theorem enrolls (legal : m.type = .add → (firstBand autoBand m.price).isSome) :
    ∃ v₁, enroll autoBand v m = some v₁ ∧ Enrolls autoBand v m v₁ ∧
      (v.Operating → v₁.Operating) := by
  by_cases missing : m.type = .add ∧ v.find m.stock = none
  · rcases Option.isSome_iff_exists.mp (legal missing.1) with ⟨band, isBand⟩
    have unknown := missing.2
    refine ⟨(v.addSymbol m.stock band expectedOrders).2, ?_, ?_, fun operating =>
      operating.addSymbol _ _ _⟩
    · rw [enroll, if_pos missing, isBand, Option.map_some]
    · constructor
      case kept => exact fun _ _ found => Venue.addSymbol_find _ _ _ found
      case engines => exact fun _ _ present => Venue.addSymbol_engines _ _ _ present
      case other =>
        intro name absent foreign
        have different : Venue.pad name ≠ Venue.pad m.stock := by
          intro same
          simp [adds, missing.1, named, same] at foreign
        rw [Venue.addSymbol_new _ _ _ unknown]
        exact (Function.update_of_ne different ..).trans absent
      case first =>
        intro name absent own
        simp only [adds, missing.1, named, true_and, beq_iff_eq, decide_eq_true_eq] at own
        rw [Venue.addSymbol_new _ _ _ unknown, Venue.find, ← own]
        exact ⟨Function.update_self .., band, isBand, by simp⟩
  · refine ⟨v, if_neg missing, ?_, id⟩
    constructor
    case kept => exact fun _ _ found => found
    case engines => exact fun _ _ present => present
    case other => exact fun _ absent _ => absent
    case first =>
      intro name absent own
      simp only [adds, named, beq_iff_eq, decide_eq_true_eq] at own
      rw [Venue.find, ← own.2] at absent
      exact absurd ⟨own.1, absent⟩ missing

omit [Handler H] in
theorem Mapped.enrolls (mapped : b.closed.Mapped v seen) (enrolls : Enrolls autoBand v m v₁)
    (operating : v₁.Operating) : b.closed.Mapped v₁ seen where
  operating := operating
  placed ref loc known := by
    rcases mapped.placed ref loc known with ⟨name, found⟩
    exact ⟨name, enrolls.kept name loc.sym found⟩
  off := rfl
  seen := mapped.seen

/-- One message of a feed that may need a book. -/
theorem Mapped.step_enrolled (mapped : b.closed.Mapped v seen) (on : b.autoBand ≠ 0)
    (legal : m.type = .add → (firstBand b.autoBand m.price).isSome)
    (fresh : ∀ ref ∈ introduced m, ref ∉ seen) :
    ∃ v₁ b' v', Enrolls b.autoBand v m v₁ ∧ b.closed.Mapped v₁ seen ∧
      b.apply v m = some (b', v') ∧ b'.autoBand = b.autoBand ∧
      b.closed.apply v₁ m = some (b'.closed, v') ∧
      b'.closed.Mapped v' (seen ++ introduced m) ∧ v'.byName = v₁.byName := by
  rcases VenueBookBuilder.enrolls (v := v) legal with ⟨v₁, enrolled, enrolls, operating⟩
  have mapped₁ := mapped.enrolls enrolls (operating mapped.operating)
  rcases mapped₁.step fresh with ⟨b₀, v', applied, mapped', byName, -⟩
  have settled : b.Settled v := ⟨mapped.operating, mapped.placed⟩
  rcases settled.step on legal with ⟨b', v'', applied', -, autoBand, -⟩
  have same := apply_enroll (v := v) (m := m) on
  rw [applied', enrolled, Option.bind_some, applied] at same
  simp only [Option.map_some, Prod.map_apply, id_eq, Option.some.injEq, Prod.mk.injEq] at same
  rcases same with ⟨rfl, rfl⟩
  exact ⟨v₁, b', v'', enrolls, mapped₁, applied', autoBand, applied, mapped', byName⟩

/-! ## Whole feeds -/

/-- The messages about a symbol from its first add on. -/
def fromFirst (names : List UInt8 → Bool) (feed : List Message) : List Message :=
  (about names (fun _ => false) feed).dropWhile fun m => m.type ≠ .add

omit [Handler H] [Inhabited H] in
theorem fromFirst_first {names : List UInt8 → Bool} (first : adds names m = true) :
    fromFirst names (m :: feed) = m :: about names (mineAfter names (fun _ => false) m) feed := by
  simp only [adds, decide_eq_true_eq] at first
  have concerned : concerns names (fun _ => false) m = true := by simp [concerns, first]
  rw [fromFirst, about, if_pos concerned, List.dropWhile_cons_of_neg (by simp [first.1])]

omit [Handler H] [Inhabited H] in
theorem fromFirst_later {names : List UInt8 → Bool} (later : adds names m = false) :
    fromFirst names (m :: feed) = fromFirst names feed := by
  have noAdd : concerns names (fun _ => false) m = true → m.type = .action := by
    unfold concerns
    cases kind : m.type <;> simp_all [adds]
  have mine : mineAfter names (fun _ => false) m = fun _ => false := by
    funext ref
    simp only [mineAfter, Bool.false_or, Bool.and_eq_false_iff]
    by_cases concerned : concerns names (fun _ => false) m = true
    · exact .inr (by simp [introduced, noAdd concerned])
    · exact .inl (by simpa using concerned)
  rw [fromFirst, about, mine]
  split
  case isTrue concerned => rw [List.dropWhile_cons_of_pos (by simp [noAdd concerned]), fromFirst]
  case isFalse => rfl

omit [Handler H] [Inhabited H] in
theorem fromFirst_eq_nil {names : List UInt8 → Bool} (foreign : ∀ m ∈ feed, adds names m = false) :
    fromFirst names feed = [] := by
  induction feed with
  | nil => rfl
  | cons m feed induction =>
      rw [fromFirst_later (foreign m List.mem_cons_self)]
      exact induction fun other member => foreign other (List.mem_cons_of_mem m member)

/-- What is in the books of a symbol is what a builder of its own makes of the messages about it
from its first add on. -/
def Lone (autoBand : Price) (b : VenueBookBuilder) (v : Venue H) (name : List UInt8) :
    List Message → Prop
  | [] => v.find name = none
  | first :: later =>
      ∃ s band e, v.find name = some s ∧ firstBand autoBand first.price = some band ∧
      v.engines[s]? = some e ∧
      BookBuilder.applyAll {} (.new band default expectedOrders) (first :: later) =
        some (b.view s, e)

/-- A registered symbol through a feed that registers others. -/
theorem Owned.run_enrolled (owned : b.closed.Owned v name s mine seen)
    (mapped : b.closed.Mapped v seen) (on : b.autoBand ≠ 0)
    (legal : ∀ m ∈ feed, m.type = .add → (firstBand b.autoBand m.price).isSome)
    (unique : (seen ++ feed.flatMap introduced).Nodup) (present : v.engines[s]? = some e) :
    ∃ b' v' e', b.applyAll v feed = some (b', v') ∧ v'.find name = some s ∧
      v'.engines[s]? = some e' ∧
      (b.view s).applyAll e (about (named name) mine feed) = some (b'.view s, e') := by
  induction feed generalizing b v seen mine e with
  | nil => exact ⟨b, v, e, rfl, owned.registered, present, rfl⟩
  | cons m feed induction =>
      rcases fresh_of_nodup unique with ⟨fresh, rest⟩
      rcases mapped.step_enrolled on (legal m List.mem_cons_self) fresh with
        ⟨v₁, b₁, v₂, enrolls, mapped₁, applied, autoBand, applied', mapped', byName⟩
      have owned₁ : b.closed.Owned v₁ name s mine seen :=
        ⟨enrolls.kept name s owned.registered, owned.own, owned.seen⟩
      rcases owned₁.step mapped₁ fresh applied' (enrolls.engines s e present) with
        ⟨owned', e₁, present₁, own⟩
      rw [← autoBand] at on
      rcases induction owned' mapped' on (by
        rw [autoBand]
        exact fun other member => legal other (List.mem_cons_of_mem m member)) rest present₁ with
        ⟨b', v', e', ran, found, present', lone⟩
      refine ⟨b', v', e', by rw [applyAll, applied]; exact ran, found, present', ?_⟩
      change if concerns (named name) mine m = true then
        (b.view s).apply e m = some (b₁.view s, e₁)
        else b₁.view s = b.view s ∧ e₁ = e at own
      rw [about]
      split at own
      case isTrue concerned =>
        rw [if_pos concerned, BookBuilder.applyAll, own]
        exact lone
      case isFalse foreign =>
        rw [if_neg foreign, ← own.1, ← own.2]
        exact lone

/-- A symbol that has no book yet. -/
theorem Mapped.run_enrolled (mapped : b.closed.Mapped v seen) (on : b.autoBand ≠ 0)
    (legal : ∀ m ∈ feed, m.type = .add → (firstBand b.autoBand m.price).isSome)
    (unique : (seen ++ feed.flatMap introduced).Nodup) (absent : v.find name = none) :
    ∃ b' v', b.applyAll v feed = some (b', v') ∧
      Lone b.autoBand b' v' name (fromFirst (named name) feed) := by
  induction feed generalizing b v seen with
  | nil => exact ⟨b, v, rfl, absent⟩
  | cons m feed induction =>
      rcases fresh_of_nodup unique with ⟨fresh, rest⟩
      have legalRest : ∀ other ∈ feed, other.type = .add →
          (firstBand b.autoBand other.price).isSome :=
        fun other member => legal other (List.mem_cons_of_mem m member)
      rcases mapped.step_enrolled on (legal m List.mem_cons_self) fresh with
        ⟨v₁, b₁, v₂, enrolls, mapped₁, applied, autoBand, applied', mapped', byName⟩
      rw [← autoBand] at on legalRest
      cases first : adds (named name) m with
      | false =>
          have absent₂ : v₂.find name = none := by
            rw [Venue.find, byName]
            exact enrolls.other name absent first
          rcases induction mapped' on legalRest rest absent₂ with ⟨b', v', ran, lone⟩
          refine ⟨b', v', by rw [applyAll, applied]; exact ran, ?_⟩
          rwa [fromFirst_later first, ← autoBand]
      | true =>
          rcases enrolls.first name absent first with ⟨registered, band, isBand, present⟩
          -- No order is in the new book, so no reference leads there.
          have owned : b.closed.Owned v₁ name v.engines.size (fun _ => false) seen := by
            constructor
            · exact registered
            · intro ref loc known
              rcases mapped.placed ref loc known with ⟨other, found⟩
              have inside := mapped.operating.inside _ _ found
              exact iff_of_false Bool.false_ne_true (Nat.ne_of_lt inside)
            · exact fun _ mine => absurd mine Bool.false_ne_true
          rcases owned.step mapped₁ fresh applied' present with ⟨owned', e₁, present₁, own⟩
          rcases owned'.run_enrolled mapped' on legalRest rest present₁ with
            ⟨b', v', e', ran, found, present', lone⟩
          refine ⟨b', v', by rw [applyAll, applied]; exact ran, ?_⟩
          have concerned : concerns (named name) (fun _ => false) m = true := by
            simp only [adds, decide_eq_true_eq] at first
            simp [concerns, first]
          rw [if_pos concerned] at own
          rw [fromFirst_first first]
          refine ⟨v.engines.size, band, e', found, isBand, present', ?_⟩
          have view : b.closed.view v.engines.size = {} := by
            simp only [VenueBookBuilder.view, BookBuilder.mk.injEq]
            funext ref
            cases known : b.refmap ref with
            | none => simp [closed, known, RefMap.empty]
            | some loc =>
                have elsewhere := mt (owned.own ref loc known).mpr Bool.false_ne_true
                simp [closed, known, elsewhere, RefMap.empty]
          rw [view] at own
          rw [BookBuilder.applyAll, own]
          exact lone

/-- From no book at all. -/
theorem run_empty (on : autoBand ≠ 0) (unique : UniqueRefs feed)
    (legal : ∀ m ∈ feed, m.type = .add → (firstBand autoBand m.price).isSome)
    (name : List UInt8) :
    ∃ b v, applyAll { autoBand } (Venue.empty : Venue H) feed = some (b, v) ∧
      Lone autoBand b v name (fromFirst (named name) feed) := by
  have mapped : (closed { autoBand }).Mapped (Venue.empty : Venue H) [] := mapped_new []
  exact mapped.run_enrolled on legal unique rfl

end VenueBookBuilder

end Itch

end Matchbook
