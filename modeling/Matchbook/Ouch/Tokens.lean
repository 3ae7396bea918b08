import Matchbook.Market.Caps
import Matchbook.Market.Determinism
import Matchbook.Ouch.Gateway

namespace Matchbook

open Transitions

/-! # Tokens on the wire

A token is kept as the C string of its field, and written out padded. Two strings may
be padded to the same bytes, and then the table of tokens does not tell what the wire
shows to be reuse. -/

/-! ## What a submission accepts -/

section submission

variable {m m' : Market} {op : Op} {side : Side} {price : Price} {qty : Qty} {tif : TimeInForce}
  {owner : OwnerId} {stp : StpPolicy} {peak : Qty} {events : List Event} {ret : Ret}

theorem Op.Limit.rejects (entry : op.Limit side price qty tif owner stp peak) :
    m.Rejects op ↔ ¬ m.inBand price ∨ qty = 0 := by
  cases entry with
  | limit => rfl
  | iceberg shown => simp [Market.Rejects, shown]

theorem Op.Limit.rejection_eq (entry : op.Limit side price qty tif owner stp peak) :
    op.rejection = .id invalidOrderId := by
  cases entry <;> rfl

/-- A limit order or iceberg is rejected, or accepted before anything else is told. -/
theorem Market.Performs.limit_cases (entry : op.Limit side price qty tif owner stp peak)
    (performs : m.Performs op events m' ret) :
    (ret = .id invalidOrderId ∧ (¬ m.inBand price ∨ qty = 0) ∧
      ∃ later, events = .reject invalidOrderId :: later ∧
        ∀ id side price qty, .accept id side price qty ∉ later) ∨
    (ret = .id m.nextId ∧ ¬ (¬ m.inBand price ∨ qty = 0) ∧
      ∃ later, events = .accept m.nextId side price qty :: later ∧
        ∀ id side price qty, .accept id side price qty ∉ later) := by
  cases performs with
  | @intro first rest m₁ phase _ _ start steps settled answers =>
      have quiet (id : OrderId) (side : Side) (price : Price) (qty : Qty) :
          .accept id side price qty ∉ rest := Step.run_not_accept steps
      rcases start.submit_cases entry.isSubmit with ⟨bad, told, answer⟩ | ⟨good, told, answer⟩
      · cases told
        exact .inl ⟨answer.trans entry.rejection_eq, entry.rejects.mp bad, rest, rfl, quiet⟩
      · have number : ret = .id m.nextId := by
          rcases answer with ⟨side, qty, owner, stp, rfl⟩ | number
          · cases entry
          · exact number
        refine .inr ⟨number, mt entry.rejects.mpr good, ?_⟩
        rw [entering_limit entry, entering] at told
        split at told <;> cases told
        · exact ⟨.cancel m.nextId :: rest, rfl, by simpa using quiet⟩
        · exact ⟨rest, rfl, quiet⟩

end submission

namespace Ouch

open Itch (byteAt)
open Mold (put16 put64)

/-! ## What a session tells of new tokens -/

def introduces (p : List UInt8) : Option (List UInt8) :=
  if byteAt p 0 = 'A'.toUInt8 then some ((p.drop 1).take tokenLen)
  else if byteAt p 0 = 'U'.toUInt8 then some ((p.drop (1 + tokenLen)).take tokenLen)
  else none

def introduced (stream : List (List UInt8)) : List (List UInt8) := stream.filterMap introduces

section introduced

@[simp] theorem introduced_append (first second : List (List UInt8)) :
    introduced (first ++ second) = introduced first ++ introduced second :=
  List.filterMap_append

theorem introduces_accepted (token : List UInt8) (id : OrderId) (side : Side) (qty : UInt32)
    (price : Price) : introduces (encodeAccepted token id side qty price) = some (putToken token) :=
  congrArg some (List.take_left' (length_putToken token))

theorem introduces_replaced (token newToken : List UInt8) (id : OrderId) (qty : UInt32)
    (price : Price) :
    introduces (encodeReplaced token newToken id qty price) = some (putToken newToken) := by
  have second : (encodeReplaced token newToken id qty price).drop (1 + tokenLen) =
      putToken newToken ++ (put64 (UInt64.ofNat id) ++ (put32 qty ++ putPrice price)) :=
    drop_putToken _ _ _ 0
  have kind : byteAt (encodeReplaced token newToken id qty price) 0 = 'U'.toUInt8 := rfl
  rw [introduces, kind, if_neg (by decide), if_pos rfl, second,
    List.take_left' (length_putToken newToken)]

theorem introduces_rejected (token : List UInt8) (reason : UInt8) :
    introduces (encodeRejected token reason) = none := rfl

end introduced

namespace Session

variable (session : Session)

theorem on_introduced (event : Event)
    (quiet : session.mode = .enter → ∀ id side price qty, event ≠ .accept id side price qty) :
    (∃ new, (Handler.on session event).out = session.out ++ new ∧ introduced new = []) ∧
      (Handler.on session event).mode = session.mode := by
  cases event with
  | accept id side price qty =>
      have elsewhere : session.mode ≠ .enter := fun entering =>
        quiet entering id side price qty rfl
      have ignored : Handler.on session (.accept id side price qty) = session := by
        change session.evAccept id side price qty = session
        simp [evAccept, elsewhere]
      rw [ignored]
      exact ⟨⟨[], (List.append_nil _).symm, rfl⟩, rfl⟩
  | trade t =>
      have both : (session.evTrade t).out = session.out ++
          [encodeExecuted (session.tokenStr t.taker) t.qty.toUInt32 t.price (session.matchSeq + 1),
            encodeExecuted (session.tokenStr t.maker) t.qty.toUInt32 t.price
              (session.matchSeq + 1)] := List.append_assoc _ _ _
      exact ⟨⟨_, both, rfl⟩, rfl⟩
  | cancel id =>
      change (∃ new, (session.evCancel id).out = _ ∧ _) ∧ (session.evCancel id).mode = _
      rw [evCancel]
      split
      · exact ⟨⟨[], (List.append_nil _).symm, rfl⟩, rfl⟩
      · exact ⟨⟨[_], rfl, rfl⟩, rfl⟩
  | reject id =>
      change (∃ new, session.evReject.out = _ ∧ _) ∧ session.evReject.mode = _
      rw [evReject]
      split
      · exact ⟨⟨[], (List.append_nil _).symm, rfl⟩, rfl⟩
      · exact ⟨⟨[_], rfl, rfl⟩, rfl⟩
  | rest id side price displayed => exact ⟨⟨[], (List.append_nil _).symm, rfl⟩, rfl⟩

theorem onAll_introduced (events : List Event)
    (quiet : session.mode = .enter → ∀ id side price qty, .accept id side price qty ∉ events) :
    ∃ new, (Handler.onAll session events).out = session.out ++ new ∧ introduced new = [] := by
  induction events generalizing session with
  | nil => exact ⟨[], (List.append_nil _).symm, rfl⟩
  | cons event events induction =>
      rcases session.on_introduced event fun entering id side price qty same =>
        quiet entering id side price qty (same ▸ List.mem_cons_self) with ⟨⟨new, told, none⟩, mode⟩
      rcases induction (Handler.on session event) fun entering id side price qty member =>
        quiet (mode ▸ entering) id side price qty (List.mem_cons_of_mem event member) with
        ⟨later, toldLater, noneLater⟩
      refine ⟨new ++ later, ?_, by rw [introduced_append, none, noneLater]; rfl⟩
      rw [← List.append_assoc, ← told]
      exact toldLater

theorem accept_out (entering : session.mode = .enter) (id : OrderId) (side : Side) (price : Price)
    (qty : Qty) : (Handler.on session (.accept id side price qty)).out =
      session.out ++ [encodeAccepted session.pendingToken id side qty.toUInt32 price] := by
  change (session.evAccept id side price qty).out = _
  simp [evAccept, folds, entering, emit]

end Session

/-! ## What a message brings in -/

namespace Gateway

def admits (g : Gateway) : Call → Option (List UInt8)
  | .takeOut => none
  | .message p =>
      match decodeIn p with
      | some (.enter token _ qty price _ _ _ _) =>
          if (g.byToken token).isSome ∨ ¬ g.engine.inBand price ∨ qty = 0 then none
          else some token
      | some (.replace token newToken qty price) =>
          match g.orderOf token with
          | none => none
          | some id =>
              if (g.byToken newToken).isNone ∧ g.engine.canModify id price qty.toUInt64 then
                some newToken
              else none
      | _ => none

def Distinguishes (g : Gateway) (call : Call) : Prop :=
  ∀ new ∈ g.admits call, ∀ token, (g.byToken token).isSome → putToken token ≠ putToken new

def DistinguishesAll (g : Gateway) : List Call → Prop
  | [] => True
  | call :: calls => g.Distinguishes call ∧
      ∀ g' taken, g.step call = some (g', taken) → g'.DistinguishesAll calls

structure Introduces (g g' : Gateway) (taken : List (List UInt8)) (new : Option (List UInt8)) :
    Prop where
  told : introduced (taken ++ g'.session.out) =
    introduced g.session.out ++ new.toList.map putToken
  known : ∀ token, (g'.byToken token).isSome ↔ (g.byToken token).isSome ∨ token ∈ new

section sessions

variable {g g' : Gateway} {m : Market} (holds : g.engine.Holds m)

theorem Introduces.refl : g.Introduces g [] none where
  told := (List.append_nil _).symm
  known token := by simp

theorem Introduces.emit {new : Option (List UInt8)} {message : List UInt8}
    (introduces : g.Introduces g' [] new) (silent : Ouch.introduces message = none) :
    g.Introduces (g'.emit message) [] new where
  told := by
    have before : introduced g'.session.out = _ := introduces.told
    have last : introduced [message] = [] := by simp [introduced, silent]
    change introduced (g'.session.out ++ [message]) = _
    rw [introduced_append, before, last]
    exact List.append_nil _
  known := introduces.known

theorem Introduces.told_quiet {engine : MatchingEngine Session} {new : List (List UInt8)}
    (told : engine.h.out = g.session.out ++ new) (quiet : introduced new = []) :
    g.Introduces { g with engine := rested engine } [] none where
  told := by
    change introduced engine.h.out = _
    rw [told, introduced_append, quiet]
    rfl
  known token := by simp

theorem takeOut_introduces : g.Introduces g.takeOut.1 g.takeOut.2 none where
  told := by
    change introduced (g.session.out ++ []) = _
    simp
  known token := by simp [takeOut, setSession]

include holds

theorem handleEnter_introduces (token : List UInt8) (side : Side) (qty : UInt32) (price : Price)
    (tif : TimeInForce) (display : UInt32) (owner : OwnerId) (stp : StpPolicy) :
    ∃ g' m', g.handleEnter token side qty price tif display owner stp = some g' ∧
      g'.engine.Holds m' ∧ g.Introduces g' []
        (if (g.byToken token).isSome ∨ ¬ g.engine.inBand price ∨ qty = 0 then none
          else some token) := by
  by_cases unused : ¬ (g.byToken token).isSome
  case neg =>
    have used := not_not.mp unused
    refine ⟨_, m, handleEnter_used used, holds.setHandler _, ?_⟩
    rw [if_pos (.inl used)]
    exact Introduces.refl.emit (introduces_rejected token badToken)
  case pos =>
    have begun : (g.beginEnter token).engine.Holds m := holds.setHandler _
    rcases submit_did begun side qty price tif display owner stp with
      ⟨op, peak, engine, id, m', events, entry, -, submitted, did⟩
    have zero : qty.toUInt64 = 0 ↔ qty = 0 := by
      rw [← UInt64.toNat_inj, ← UInt32.toNat_inj]
      simp
    have told : engine.h = Handler.onAll (g.beginEnter token).session events := did.told
    refine ⟨_, m', handleEnter_submitted unused submitted, did.holds.setHandler _, ?_⟩
    have inside := holds.inBand_iff price
    rcases did.performs.limit_cases entry with ⟨number, bad, later, rfl, quiet⟩ |
      ⟨number, good, later, rfl, quiet⟩
    · cases number
      have refused : (g.byToken token).isSome ∨ ¬ g.engine.inBand price ∨ qty = 0 :=
        .inr (bad.imp (mt inside.mp) zero.mp)
      rcases (g.beginEnter token).session.onAll_introduced (.reject invalidOrderId :: later)
        (by simpa using fun _ => quiet) with ⟨new, out, none⟩
      rw [if_pos refused, if_neg (not_not.mpr rfl)]
      exact .told_quiet ((congrArg Session.out told).trans out) none
    · cases number
      have issued : m.nextId ≠ invalidOrderId := Nat.ne_of_gt holds.valid.started
      have admitted : ¬ ((g.byToken token).isSome ∨ ¬ g.engine.inBand price ∨ qty = 0) := by
        rintro (used | bad)
        · exact unused used
        · exact good (bad.imp (mt inside.mpr) zero.mpr)
      rw [if_neg admitted, if_pos issued]
      let accepted := Handler.on (g.beginEnter token).session
        (.accept m.nextId side price qty.toUInt64)
      rcases accepted.onAll_introduced later (fun _ => quiet) with ⟨new, out, none⟩
      constructor
      · change introduced engine.h.out = _
        have first : accepted.out = g.session.out ++
            [encodeAccepted token m.nextId side qty.toUInt64.toUInt32 price] :=
          Session.accept_out _ rfl _ _ _ _
        have whole : engine.h.out = accepted.out ++ new := (congrArg Session.out told).trans out
        rw [whole, first, introduced_append, introduced_append, none]
        simp [introduced, introduces_accepted]
      · intro other
        simp only [Function.update_apply]
        by_cases same : other = token
        · simp [same]
        · simp [same, Ne.symm same]

theorem handleCancel_introduces (token : List UInt8) :
    ∃ g' m', g.handleCancel token = some g' ∧ g'.engine.Holds m' ∧ g.Introduces g' [] none := by
  cases known : g.orderOf token with
  | none =>
      exact ⟨_, m, handleCancel_unknown known, holds.setHandler _,
        Introduces.refl.emit (introduces_rejected token badToken)⟩
  | some id =>
      have begun : (g.setMode .cancel).engine.Holds m := holds.setHandler _
      rcases begun.cancel id with ⟨engine, ok, m', events, cancelled, did⟩
      rcases (g.setMode .cancel).session.onAll_introduced events (fun entering => nomatch entering)
        with ⟨new, out, none⟩
      have quiet : g.Introduces { g with engine := rested engine } [] .none :=
        .told_quiet ((congrArg Session.out did.told).trans out) none
      refine ⟨_, m', handleCancel_known known cancelled, ?_, ?_⟩
      · cases ok <;> exact did.holds.setHandler _
      · cases ok with
        | true => exact quiet
        | false => exact quiet.emit (introduces_rejected token badToken)

theorem handleReplace_introduces (token newToken : List UInt8) (qty : UInt32) (price : Price) :
    ∃ g' m', g.handleReplace token newToken qty price = some g' ∧ g'.engine.Holds m' ∧
      g.Introduces g' [] (match g.orderOf token with
        | none => none
        | some id =>
            if (g.byToken newToken).isNone ∧ g.engine.canModify id price qty.toUInt64 then
              some newToken
            else none) := by
  cases known : g.orderOf token with
  | none =>
      exact ⟨_, m, handleReplace_unknown known, holds.setHandler _,
        Introduces.refl.emit (introduces_rejected newToken badToken)⟩
  | some id =>
      by_cases unused : ¬ (g.byToken newToken).isSome
      case neg =>
        have used := not_not.mp unused
        refine ⟨_, m, handleReplace_used known used, holds.setHandler _, ?_⟩
        have taken : ¬ ((g.byToken newToken).isNone ∧
            g.engine.canModify id price qty.toUInt64) := by
          rintro ⟨free, -⟩
          rw [Option.isNone_iff_eq_none] at free
          simp [free] at used
        simp only [if_neg taken]
        exact Introduces.refl.emit (introduces_rejected newToken badToken)
      case pos =>
        have begun : (g.beginReplace id newToken).engine.Holds m :=
          (holds.setHandler _).setHandler _
        rcases begun.modify id price qty.toUInt64 with ⟨engine, ok, m', events, modified, did⟩
        rcases (g.beginReplace id newToken).session.onAll_introduced events
          (fun entering => nomatch entering) with ⟨new, out, none⟩
        have told : engine.h.out = g.session.out ++ new := (congrArg Session.out did.told).trans out
        have free : (g.byToken newToken).isNone = true := by simpa using unused
        have decides : ok = (g.beginReplace id newToken).engine.canModify id price qty.toUInt64 :=
          MatchingEngine.modify_ok modified
        have agrees : ok = g.engine.canModify id price qty.toUInt64 := decides
        refine ⟨_, m', handleReplace_modified known unused modified, ?_, ?_⟩
        · cases ok <;> exact (did.holds.setHandler _).setHandler _
        · simp only [free, true_and, ← agrees]
          cases ok with
          | true =>
              rw [if_pos rfl, if_pos rfl]
              constructor
              · change introduced (engine.h.out.take g.session.out.length ++ _ ::
                  engine.h.out.drop g.session.out.length) = _
                rw [told, List.take_left' rfl, List.drop_left' rfl, introduced_append,
                  introduced, introduced, List.filterMap_cons_some (introduces_replaced _ _ _ _ _)]
                have none : new.filterMap introduces = [] := none
                rw [none]
                rfl
              · intro other
                change
                  (Function.update (Function.update g.byToken token _) newToken _ other).isSome ↔ _
                simp only [Function.update_apply]
                have first : (g.byToken token).isSome := by
                  cases entry : g.byToken token with
                  | none => simp [orderOf, entry] at known
                  | some id => rfl
                grind
          | false =>
              rw [if_neg Bool.false_ne_true, if_neg Bool.false_ne_true]
              have quiet : g.Introduces ({ g with engine := rested engine }.bind id
                  (g.session.tokenStr id)) [] .none :=
                ⟨(Introduces.told_quiet told none).told, (Introduces.told_quiet told none).known⟩
              exact quiet.emit (introduces_rejected newToken validation)

theorem step_introduces (call : Call) :
    ∃ g' taken m', g.step call = some (g', taken) ∧ g'.engine.Holds m' ∧
      g.Introduces g' taken (g.admits call) := by
  cases call with
  | takeOut => exact ⟨_, _, m, rfl, holds.setHandler _, takeOut_introduces⟩
  | message p =>
      simp only [step, onMessage, admits]
      cases decodeIn p with
      | none => exact ⟨g, [], m, rfl, holds, Introduces.refl⟩
      | some message =>
          cases message with
          | enter token side qty price tif display owner stp =>
              rcases handleEnter_introduces holds token side qty price tif display owner stp with
                ⟨g', m', handled, holds', introduces⟩
              exact ⟨g', [], m', by simp [handled], holds', introduces⟩
          | replace token newToken qty price =>
              rcases handleReplace_introduces holds token newToken qty price with
                ⟨g', m', handled, holds', introduces⟩
              exact ⟨g', [], m', by simp [handled], holds', introduces⟩
          | cancel token =>
              rcases handleCancel_introduces holds token with ⟨g', m', handled, holds', introduces⟩
              exact ⟨g', [], m', by simp [handled], holds', introduces⟩

/-! ## Sessions -/

omit holds in
theorem nodup_introduced_iff {keys : List (List UInt8)}
    (known : ∀ token, (g.byToken token).isSome ↔ token ∈ keys) (call : Call)
    (distinct : (keys.map putToken).Nodup) :
    ((keys ++ (g.admits call).toList).map putToken).Nodup ↔ g.Distinguishes call := by
  cases admitted : g.admits call with
  | none => simp [Distinguishes, admitted, distinct]
  | some new =>
      have fresh : putToken new ∉ keys.map putToken ↔ g.Distinguishes call := by
        simp [Distinguishes, admitted, known]
      rw [← fresh, Option.toList_some, List.map_append, List.map_singleton, List.nodup_append_comm,
        List.singleton_append, List.nodup_cons, and_iff_left distinct]

theorem run_introduces (calls : List Call) {keys : List (List UInt8)}
    (known : ∀ token, (g.byToken token).isSome ↔ token ∈ keys) :
    ∃ g' taken new, g.run calls = some (g', taken) ∧
      introduced (taken ++ g'.session.out) = introduced g.session.out ++ new.map putToken ∧
      ((keys.map putToken).Nodup →
        (((keys ++ new).map putToken).Nodup ↔ g.DistinguishesAll calls)) := by
  induction calls generalizing g m keys with
  | nil => exact ⟨g, [], [], rfl, (List.append_nil _).symm, by simp [DistinguishesAll]⟩
  | cons call calls induction =>
      rcases step_introduces holds call with ⟨g₁, taken₁, m₁, stepped, holds₁, told, known₁⟩
      have known₁ (token : List UInt8) :
          (g₁.byToken token).isSome ↔ token ∈ keys ++ (g.admits call).toList := by
        rw [known₁, known]
        simp
      rcases induction holds₁ known₁ with ⟨g', taken, new, ran, later, distinct⟩
      refine ⟨g', taken₁ ++ taken, (g.admits call).toList ++ new, ?_, ?_, ?_⟩
      · simp only [run, stepped, ran, Option.bind_eq_bind, Option.bind_some]
      · rw [introduced_append] at told
        rw [List.append_assoc, introduced_append, later, ← List.append_assoc, told]
        simp
      · intro before
        have now := nodup_introduced_iff known call before
        have rest : (∀ g' taken, g.step call = some (g', taken) → g'.DistinguishesAll calls) ↔
            g₁.DistinguishesAll calls := by simp [stepped]
        rw [DistinguishesAll, rest, ← now, ← List.append_assoc]
        constructor
        · intro all
          have start := all.sublist ((List.sublist_append_left _ new).map putToken)
          exact ⟨start, (distinct start).mp all⟩
        · rintro ⟨start, conforms⟩
          exact (distinct start).mpr conforms

end sessions

/-- Nothing is introduced twice exactly if every call of the session that is let in brings a
token that is written differently from all before it. -/
theorem introduced_nodup_iff (band : Band) (expectedOrders : Nat) (calls : List Call) :
    ∃ g taken, (new band expectedOrders).run calls = some (g, taken) ∧
      ((introduced (taken ++ g.session.out)).Nodup ↔
        (new band expectedOrders).DistinguishesAll calls) := by
  have holds : (new band expectedOrders).engine.Holds (.new band) :=
    MatchingEngine.holds_new band _ expectedOrders
  have known (token : List UInt8) :
      ((new band expectedOrders).byToken token).isSome ↔ token ∈ ([] : List (List UInt8)) := by
    simp [new]
  rcases run_introduces holds calls known with ⟨g, taken, new, ran, told, distinct⟩
  refine ⟨g, taken, ran, ?_⟩
  rw [told]
  exact distinct List.nodup_nil

/-! ### A token told twice -/

def bidUnder (token : List UInt8) : List UInt8 :=
  'O'.toUInt8 :: (token ++ (putSide .buy :: (put32 1 ++ (putPrice 5 ++ (tifByte .gtc ::
    (put32 0 ++ (put16 0 ++ [stpByte .cancelTaker])))))))

def spaced : List UInt8 := 'A'.toUInt8 :: List.replicate 13 ' '.toUInt8

def nulled : List UInt8 := 'A'.toUInt8 :: List.replicate 13 0

theorem not_introduced_nodup : ¬ ∀ (band : Band) (expectedOrders : Nat) (calls : List Call) g taken,
    (new band expectedOrders).run calls = some (g, taken) →
      (introduced (taken ++ g.session.out)).Nodup := by
  intro distinct
  let band : Band := ⟨1, 10, by decide, by decide, by decide⟩
  let calls : List Call := [.message (bidUnder spaced), .message (bidUnder nulled)]
  have told : ((new band 0).run calls).map
      (fun state => introduced (state.2 ++ state.1.session.out)) =
        some [spaced, spaced] := by decide
  rcases Option.map_eq_some_iff.mp told with ⟨⟨g, taken⟩, ran, twice⟩
  have twice : introduced (taken ++ g.session.out) = [spaced, spaced] := twice
  have once := distinct band 0 calls g taken ran
  rw [twice] at once
  simp at once

end Gateway

end Ouch

end Matchbook
