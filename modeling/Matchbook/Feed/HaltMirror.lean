import Matchbook.Feed.Projection

namespace Matchbook

/-! # Halts of books that are added on the way

The trading actions of a symbol are lost until its first add has registered it. -/

namespace Itch

variable {names : List UInt8 → Bool} {m : Message} {feed : List Message}

/-- The most recent halt or resumption of trading of a symbol. -/
def lastAction (names : List UInt8 → Bool) (feed : List Message) : Option UInt8 :=
  feed.foldl (fun last m =>
    if m.type = .action ∧ names m.stock = true ∧
        (m.state = 'H'.toUInt8 ∨ m.state = 'T'.toUInt8) then some m.state
    else last) none

def adds (names : List UInt8 → Bool) (m : Message) : Bool := m.type = .add ∧ names m.stock = true

/-- No halt is in force when the first add of the symbol registers it. -/
def OpensRunning (names : List UInt8 → Bool) (feed : List Message) : Prop :=
  ∀ before m after, feed = before ++ m :: after → adds names m = true →
    (∀ earlier ∈ before, adds names earlier = false) →
    lastAction names before ≠ some 'H'.toUInt8

def flagAfter (names : List UInt8 → Bool) (flag : Option Bool) (m : Message) : Option Bool :=
  match flag with
  | none => if adds names m then some false else none
  | some halted => some (if names m.stock then haltedAfter halted m else halted)

theorem OpensRunning.of_append {rest : List Message} (opens : OpensRunning names (feed ++ rest)) :
    OpensRunning names feed := by
  intro before first after split
  exact opens before first (after ++ rest) (by simp [split])

theorem OpensRunning.take (opens : OpensRunning names feed) (n : Nat) :
    OpensRunning names (feed.take n) := by
  rw [← List.take_append_drop n feed] at opens
  exact opens.of_append

theorem not_lost (unregistered : feed.foldl (flagAfter names) none = none) :
    ∀ earlier ∈ feed, adds names earlier = false := by
  induction feed using List.reverseRecOn with
  | nil => exact nofun
  | append_singleton feed m induction =>
      rw [List.foldl_append, List.foldl_cons, List.foldl_nil] at unregistered
      cases flag : feed.foldl (flagAfter names) none with
      | some halted => simp [flag, flagAfter] at unregistered
      | none =>
          have noAdd : adds names m = false := by
            cases adds : adds names m with
            | false => rfl
            | true => simp [flag, flagAfter, adds] at unregistered
          intro earlier member
          rcases List.mem_append.1 member with before | last
          · exact induction flag earlier before
          · rwa [List.mem_singleton.1 last]

theorem flag_of_noAdds (none : ∀ earlier ∈ feed, adds names earlier = false) :
    feed.foldl (flagAfter names) .none = .none := by
  induction feed with
  | nil => rfl
  | cons m feed induction =>
      rw [List.foldl_cons]
      have noAdd := none m List.mem_cons_self
      rw [flagAfter, noAdd, if_neg Bool.false_ne_true]
      exact induction fun earlier member => none earlier (List.mem_cons_of_mem _ member)

theorem lastAction_append (feed : List Message) (m : Message) :
    lastAction names (feed ++ [m]) =
      if m.type = .action ∧ names m.stock = true ∧
          (m.state = 'H'.toUInt8 ∨ m.state = 'T'.toUInt8) then some m.state
      else lastAction names feed := by
  rw [lastAction, List.foldl_append]
  rfl

theorem OpensRunning.flag (opens : OpensRunning names feed) {halted : Bool}
    (registered : feed.foldl (flagAfter names) none = some halted) :
    halted = true ↔ lastAction names feed = some 'H'.toUInt8 := by
  induction feed using List.reverseRecOn generalizing halted with
  | nil => cases registered
  | append_singleton feed m induction =>
      rw [List.foldl_append, List.foldl_cons, List.foldl_nil] at registered
      rw [lastAction_append]
      cases flag : feed.foldl (flagAfter names) none with
      | none =>
          rw [flag, flagAfter] at registered
          split at registered
          case isTrue first =>
              have quiet := opens feed m [] rfl first (not_lost flag)
              have kind : m.type = .add := by
                simp only [adds, decide_eq_true_eq] at first
                exact first.1
              rw [← Option.some.inj registered, if_neg (by simp [kind])]
              simp [quiet]
          case isFalse => cases registered
      | some before =>
          have same := induction opens.of_append flag
          rw [flag, flagAfter, Option.some.injEq] at registered
          rw [← registered]
          have differ : 'T'.toUInt8 ≠ 'H'.toUInt8 := by decide
          unfold haltedAfter
          by_cases own : names m.stock = true
          · by_cases action : m.type = .action
            · by_cases halts : m.state = 'H'.toUInt8
              · simp [own, action, halts]
              · by_cases trades : m.state = 'T'.toUInt8
                · simp [own, action, trades, differ]
                · simp [own, action, halts, trades, same]
            · simp [own, action, same]
          · simp [own, same]

theorem opensRunning_of_flag
    (mirrors : ∀ n halted, (feed.take n).foldl (flagAfter names) none = some halted →
      (halted = true ↔ lastAction names (feed.take n) = some 'H'.toUInt8)) :
    OpensRunning names feed := by
  intro before m after split first noAdds inForce
  have taken : feed.take (before.length + 1) = before ++ [m] := by
    rw [split, List.append_cons]
    exact List.take_left' (by simp)
  have kind : m.type = .add := by
    simp only [adds, decide_eq_true_eq] at first
    exact first.1
  have flag : (before ++ [m]).foldl (flagAfter names) none = some false := by
    rw [List.foldl_append, flag_of_noAdds noAdds]
    simp [flagAfter, first]
  have same := mirrors (before.length + 1) false (by rw [taken, flag])
  rw [taken, lastAction_append, if_neg (by simp [kind])] at same
  exact Bool.false_ne_true (same.2 inForce)

/-! ## The venue -/

variable {H : Type} [Handler H] [Inhabited H] {b b' : VenueBookBuilder} {v v' : Venue H}
  {s : SymbolId} {e e' : MatchingEngine H} {name : List UInt8}

def flagOf (v : Venue H) (name : List UInt8) : Option Bool :=
  (v.find name).bind fun s => v.engines[s]?.map (·.halted)

namespace VenueBookBuilder

omit [Inhabited H] in
theorem Settled.flag_routes (settled : b.Settled v) (goes : b.target v m = some s)
    (present : v.engines[s]? = some e) (routes : b.Routes b' s e e' m) (name : List UInt8) :
    flagOf (v.setEngine s e') name = flagAfter (named name) (flagOf v name) m := by
  have inside := (Array.getElem?_eq_some_iff.1 present).1
  unfold flagOf
  rw [Venue.find_setEngine]
  cases found : v.find name with
  | none =>
      have noAdd : adds (named name) m = false := by
        cases first : adds (named name) m with
        | false => rfl
        | true =>
            simp only [adds, named, decide_eq_true_eq, beq_iff_eq] at first
            rw [Venue.find, ← first.2] at found
            have goes' : v.find m.stock = some s := by simpa [target, first.1] using goes
            exact absurd (goes'.symm.trans found) (Option.some_ne_none s)
      simp [flagAfter, noAdd]
  | some other =>
      rcases settled.operating.engine found with ⟨e₀, present₀, -⟩
      simp only [Option.bind_some, Venue.setEngine_engines inside, present₀, Option.map_some,
        flagAfter]
      cases action : decide (m.type = .action) with
      | false =>
          have still halted : haltedAfter halted m = halted := by
            simp only [decide_eq_false_iff_not] at action
            simp [haltedAfter, action]
          simp only [still, ite_self]
          split
          case isTrue same =>
              rw [same, present] at present₀
              rw [Option.map_some, routes.halted, still, Option.some.inj present₀]
          case isFalse => rfl
      | true =>
          have kind : m.type = .action := of_decide_eq_true action
          have goes' : v.find m.stock = some s := by simpa [target, kind] using goes
          have same : named name m.stock = true ↔ other = s := by
            simp only [named, beq_iff_eq]
            constructor
            · intro key
              rw [Venue.find, ← key] at found
              exact Option.some.inj (found.symm.trans goes')
            · intro here
              subst here
              exact settled.operating.distinct _ _ other goes' found
          by_cases here : other = s
          · rw [if_pos here, if_pos (same.2 here)]
            rw [here, present] at present₀
            rw [Option.map_some, routes.halted, Option.some.inj present₀]
          · rw [if_neg here, if_neg (fun own => here (same.1 own)), Option.map_some]

omit [Handler H] [Inhabited H] in
theorem flag_unrouted (nowhere : b.target v m = none) (noAdd : m.type ≠ .add)
    (name : List UInt8) : flagOf v name = flagAfter (named name) (flagOf v name) m := by
  have notAdds : adds (named name) m = false := by simp [adds, noAdd]
  cases flag : flagOf v name with
  | none => simp [flagAfter, notAdds]
  | some halted =>
      simp only [flagAfter, Option.some.injEq]
      split
      case isFalse => rfl
      case isTrue own =>
          cases kind : m.type with
          | action =>
              have unknown : v.find m.stock = none := by simpa [target, kind] using nowhere
              rw [Venue.find, eq_of_beq own] at unknown
              simp [flagOf, Venue.find, unknown] at flag
          | _ => simp [haltedAfter, kind]

omit [Handler H] in
theorem flagOf_addSymbol (operating : v.Operating) {stock : List UInt8}
    (unknown : v.find stock = none) (band : Band) (expectedOrders : Nat) (name : List UInt8) :
    flagOf (v.addSymbol stock band expectedOrders).2 name =
      if named name stock then some false else flagOf v name := by
  rw [Venue.addSymbol_new stock band expectedOrders unknown]
  unfold flagOf
  simp only [Venue.find, Function.update_apply, named, beq_iff_eq]
  by_cases same : Venue.pad stock = Venue.pad name
  · rw [if_pos same.symm, if_pos same, Option.bind_some, Array.getElem?_push, if_pos rfl]
    rfl
  · rw [if_neg (Ne.symm same), if_neg same]
    cases found : v.byName (Venue.pad name) with
    | none => rfl
    | some s =>
        have inside := operating.inside _ s found
        rw [Option.bind_some, Option.bind_some, Array.getElem?_push, if_neg (Nat.ne_of_lt inside)]

/-- The first add of a symbol. -/
theorem Settled.step_first (settled : b.Settled v) (kind : m.type = .add)
    (unknown : v.find m.stock = none) (on : b.autoBand ≠ 0)
    (legal : (firstBand b.autoBand m.price).isSome) :
    ∃ b' v', b.apply v m = some (b', v') ∧ b'.Settled v' ∧ b'.autoBand = b.autoBand ∧
      ∀ name, flagOf v' name = flagAfter (named name) (flagOf v name) m := by
  rcases Option.isSome_iff_exists.1 legal with ⟨band, isBand⟩
  have operating := settled.operating.addSymbol m.stock band expectedOrders
  have settled₁ : b.Settled (v.addSymbol m.stock band expectedOrders).2 := by
    constructor
    · exact operating
    · intro ref loc known
      rcases settled.placed ref loc known with ⟨name, found⟩
      exact ⟨name, Venue.addSymbol_find _ _ _ found⟩
  rcases Venue.find_addSymbol_self (v := v) m.stock band expectedOrders with ⟨s, found⟩
  have here : (v.addSymbol m.stock band expectedOrders).1 = s := by
    rw [Venue.addSymbol_new m.stock band expectedOrders unknown] at found ⊢
    simpa [Venue.find] using found
  have goes : b.target (v.addSymbol m.stock band expectedOrders).2 m = some s := by
    simp [target, kind, found]
  rcases operating.engine found with ⟨e, present, live⟩
  rcases enter_routes (b := b) kind present live with ⟨b', e', entered, routes⟩
  refine ⟨b', _, ?_, settled₁.routes found routes, routes.autoBand, ?_⟩
  · rw [apply]
    simp [kind, unknown, on, isBand, here, entered]
  · intro name
    rw [settled₁.flag_routes goes present routes, flagOf_addSymbol settled.operating unknown]
    split
    case isFalse => rfl
    case isTrue own =>
        have unregistered : flagOf v name = none := by
          rw [Venue.find, eq_of_beq own] at unknown
          simp [flagOf, Venue.find, unknown]
        simp [unregistered, flagAfter, adds, kind, own, haltedAfter]

theorem Settled.step (settled : b.Settled v) (on : b.autoBand ≠ 0)
    (legal : m.type = .add → (firstBand b.autoBand m.price).isSome) :
    ∃ b' v', b.apply v m = some (b', v') ∧ b'.Settled v' ∧ b'.autoBand = b.autoBand ∧
      ∀ name, flagOf v' name = flagAfter (named name) (flagOf v name) m := by
  cases goes : b.target v m with
  | some s =>
      rcases settled.target_registered goes with ⟨name, registered⟩
      rcases apply_routes settled goes with ⟨e, b', e', present, applied, routes⟩
      exact ⟨b', _, applied, settled.routes registered routes, routes.autoBand,
        settled.flag_routes goes present routes⟩
  | none =>
      by_cases kind : m.type = .add
      · have unknown : v.find m.stock = none := by simpa [target, kind] using goes
        exact settled.step_first kind unknown on (legal kind)
      · rcases apply_unrouted (fun add => absurd add kind) goes with
          ⟨b', applied, refmap, autoBand, -⟩
        refine ⟨b', v, applied, ?_, autoBand, flag_unrouted goes kind⟩
        constructor
        · exact settled.operating
        · rw [refmap]
          exact settled.placed

theorem Settled.run (settled : b.Settled v) (on : b.autoBand ≠ 0)
    (legal : ∀ m ∈ feed, m.type = .add → (firstBand b.autoBand m.price).isSome) :
    ∃ b' v', b.applyAll v feed = some (b', v') ∧ b'.Settled v' ∧
      ∀ name, flagOf v' name = feed.foldl (flagAfter (named name)) (flagOf v name) := by
  induction feed generalizing b v with
  | nil => exact ⟨b, v, rfl, settled, fun _ => rfl⟩
  | cons m feed induction =>
      rcases settled.step on (legal m List.mem_cons_self) with
        ⟨b₁, v₁, applied, settled₁, autoBand, flag₁⟩
      rw [← autoBand] at on
      rcases induction settled₁ on (by
        rw [autoBand]
        exact fun m member => legal m (List.mem_cons_of_mem _ member)) with
        ⟨b', v', ran, settled', flag'⟩
      exact ⟨b', v', by rw [applyAll, applied]; exact ran, settled', fun name => by
        rw [flag', flag₁, List.foldl_cons]⟩

/-- An add of a halted book rests without a trade. -/
theorem Settled.add_quiet (settled : b.Settled v) (kind : m.type = .add)
    (found : v.find m.stock = some s) (present : v.engines[s]? = some e)
    (halted : e.halted = true) :
    ∃ b' v' e' events, b.apply v m = some (b', v') ∧ v'.engines[s]? = some e' ∧
      e'.h = Handler.onAll e.h events ∧ ∀ t, .trade t ∉ events := by
  have live := settled.operating.live s e present
  have inside := settled.operating.inside _ s found
  rcases live.submitLimit_quiet halted m.side m.price m.qty .gtc 0 .cancelTaker with
    ⟨e', id, events, called, told, quiet⟩
  have entered : ∃ b', b.apply v m = some (b', v.setEngine s e') := by
    rw [apply]
    simp only [kind, found, enter, present, Option.bind_eq_bind, Option.bind_some, called]
    exact ⟨_, rfl⟩
  rcases entered with ⟨b', applied⟩
  exact ⟨b', v.setEngine s e', e', events, applied,
    by rw [Venue.setEngine_engines inside, if_pos rfl], told, quiet⟩

section mirror

variable (symbols : List (List UInt8 × Band × Nat))
  (unregistered : ((Venue.empty : Venue H).addSymbols symbols).find name = none)
  {autoBand : Price} (on : 0 < autoBand)
  (legal : ∀ m ∈ feed, m.type = .add → (firstBand autoBand m.price).isSome)
include unregistered on legal

theorem applyAll_flag (n : Nat) :
    ∃ b v, VenueBookBuilder.applyAll { autoBand } ((Venue.empty : Venue H).addSymbols symbols)
        (feed.take n) = some (b, v) ∧ b.Settled v ∧
      flagOf v name = (feed.take n).foldl (flagAfter (named name)) none := by
  have settled : Settled { autoBand } ((Venue.empty : Venue H).addSymbols symbols) :=
    ⟨Venue.operating_empty.addSymbols symbols, nofun⟩
  have start : flagOf ((Venue.empty : Venue H).addSymbols symbols) name = none := by
    rw [flagOf, unregistered]
    rfl
  have takenLegal : ∀ m ∈ feed.take n, m.type = .add → (firstBand autoBand m.price).isSome :=
    fun m member => legal m (List.mem_of_mem_take member)
  rcases settled.run (Int.ne_of_gt on) takenLegal with ⟨b, v, ran, settled', flag⟩
  exact ⟨b, v, ran, settled', by rw [flag name, start]⟩

theorem opensRunning_of_mirrors
    (mirrors : ∀ n, ∃ b v, VenueBookBuilder.applyAll { autoBand }
        ((Venue.empty : Venue H).addSymbols symbols) (feed.take n) = some (b, v) ∧
      ∀ s e, v.find name = some s → v.engines[s]? = some e →
        (e.halted = true ↔ lastAction (named name) (feed.take n) = some 'H'.toUInt8)) :
    OpensRunning (named name) feed := by
  apply opensRunning_of_flag
  intro n halted registered
  rcases mirrors n with ⟨b, v, ran, mirror⟩
  rcases applyAll_flag symbols unregistered on legal n with ⟨b', v', ran', -, flag⟩
  rcases Prod.mk.inj (Option.some.inj (ran.symm.trans ran')) with ⟨rfl, rfl⟩
  rw [registered] at flag
  rcases Option.bind_eq_some_iff.1 flag with ⟨s, found, engine⟩
  rcases Option.map_eq_some_iff.1 engine with ⟨e, present, isHalted⟩
  rw [← isHalted]
  exact mirror s e found present

/-- After every message the book of a symbol is halted exactly if the last action says so, and
then its adds rest without a trade, if and only if no halt is in force at its first add. -/
theorem applyAll_mirrors_iff :
    (∀ n, ∃ b v, VenueBookBuilder.applyAll { autoBand }
        ((Venue.empty : Venue H).addSymbols symbols) (feed.take n) = some (b, v) ∧
      ∀ s e, v.find name = some s → v.engines[s]? = some e →
        (e.halted = true ↔ lastAction (named name) (feed.take n) = some 'H'.toUInt8) ∧
        ∀ m, adds (named name) m = true →
          lastAction (named name) (feed.take n) = some 'H'.toUInt8 →
          ∃ b' v' e' events, b.apply v m = some (b', v') ∧ v'.engines[s]? = some e' ∧
            e'.h = Handler.onAll e.h events ∧ ∀ t, .trade t ∉ events) ↔
      OpensRunning (named name) feed := by
  constructor
  · intro mirrors
    apply opensRunning_of_mirrors symbols unregistered on legal
    intro n
    rcases mirrors n with ⟨b, v, ran, mirror⟩
    exact ⟨b, v, ran, fun s e found present => (mirror s e found present).1⟩
  · intro opens n
    rcases applyAll_flag symbols unregistered on legal n with ⟨b, v, ran, settled, flag⟩
    refine ⟨b, v, ran, ?_⟩
    intro s e found present
    have registered : (feed.take n).foldl (flagAfter (named name)) none = some e.halted := by
      rw [← flag, flagOf, found, Option.bind_some, present]
      rfl
    have mirror := (opens.take n).flag registered
    refine ⟨mirror, ?_⟩
    intro m first halts
    simp only [adds, named, decide_eq_true_eq, beq_iff_eq] at first
    have found' : v.find m.stock = some s := by
      rw [Venue.find, first.2]
      exact found
    exact settled.add_quiet first.1 found' present (mirror.2 halts)

end mirror

/-- A symbol that is added before its first action. -/
theorem applyAll_mirrors_added :
    ∃ b v, VenueBookBuilder.applyAll { autoBand := 131072 }
        ((Venue.empty : Venue NullHandler).addSymbols [])
        [{ type := .add, ref := 1, qty := 5, price := 100, stock := Mcast.mbtest },
          { type := .action, stock := Mcast.mbtest, state := 'H'.toUInt8 }] = some (b, v) ∧
      ∀ s e, v.find Mcast.mbtest = some s → v.engines[s]? = some e →
        (e.halted = true ↔ lastAction (named Mcast.mbtest)
          [{ type := .add, ref := 1, qty := 5, price := 100, stock := Mcast.mbtest },
            { type := .action, stock := Mcast.mbtest, state := 'H'.toUInt8 }] =
            some 'H'.toUInt8) := by
  have opens : OpensRunning (named Mcast.mbtest)
      [{ type := .add, ref := 1, qty := 5, price := 100, stock := Mcast.mbtest },
        { type := .action, stock := Mcast.mbtest, state := 'H'.toUInt8 }] := by
    intro before m after split first noAdds
    cases before with
    | nil => exact nofun
    | cons head before =>
        have isAdd := noAdds head List.mem_cons_self
        rw [← (List.cons.inj split).1] at isAdd
        exact absurd isAdd (by decide)
  rcases (applyAll_mirrors_iff (H := NullHandler) [] rfl (by decide : (0 : Price) < 131072)
      (by decide)).2 opens 2 with
    ⟨b, v, ran, mirror⟩
  exact ⟨b, v, ran, fun s e found present => (mirror s e found present).1⟩

/-- A halt before the symbol's first add is lost. -/
theorem not_applyAll_mirrors :
    ¬ ∀ (symbols : List (List UInt8 × Band × Nat)) (name : List UInt8) (autoBand : Price)
        (feed : List Message),
      ((Venue.empty : Venue NullHandler).addSymbols symbols).find name = none → 0 < autoBand →
      (∀ m ∈ feed, m.type = .add → (firstBand autoBand m.price).isSome) →
      ∀ n, ∃ b v, VenueBookBuilder.applyAll { autoBand }
          ((Venue.empty : Venue NullHandler).addSymbols symbols) (feed.take n) = some (b, v) ∧
        ∀ s e, v.find name = some s → v.engines[s]? = some e →
          (e.halted = true ↔ lastAction (named name) (feed.take n) = some 'H'.toUInt8) := by
  intro mirrors
  have opens := opensRunning_of_mirrors (H := NullHandler) [] rfl (by decide) (by decide)
    (mirrors [] Mcast.mbtest 131072
      [{ type := .action, stock := Mcast.mbtest, state := 'H'.toUInt8 },
        { type := .add, ref := 1, qty := 5, price := 100, stock := Mcast.mbtest }]
      rfl (by decide) (by decide))
  exact opens [_] _ [] rfl (by decide) (by decide) (by decide)

end VenueBookBuilder

end Itch

end Matchbook
