import HighPerfTrading.Codecs.EncodeEvent
import HighPerfTrading.Gateway.ClientConnections
import HighPerfTrading.Gateway.FrameEffect

/-! What the clients of the gateway get: everything that is sent on their connections, in order, but no more than
the slowest of them lets through. -/
namespace HighPerfTrading
namespace Gateway

/-! ### Whom an event goes to -/

namespace GatewayContext

/-- A fill goes to the connection of the maker and to that of the command. -/
def targets (g : GatewayContext) (connId : UInt64) : Event → List UInt64
  | .fill fill => (g.pendingOrders[fill.makerOrderId]?).toList.map OrderMetadata.connId ++ [connId]
  | _ => [connId]

/-- What the handling of an event sends at once is what is sent to its targets. -/
theorem handleEngineEvent_targets (g : GatewayContext) (connId : UInt64) (ev : Event) :
    (g.handleEngineEvent connId ev).2 = (g.targets connId ev).flatMap fun c => g.sendTo c ev := by
  have hsame : ∀ g' : GatewayContext, g'.clients = g.clients → g'.sendTo connId ev = g.sendTo connId ev := by
    intro g' hg
    rw [sendTo,sendTo,hg]
  cases ev with
  | fill fill =>
    simp only [handleEngineEvent,handleFill,targets]
    cases g.pendingOrders[fill.makerOrderId]? <;> simp
  | ack a =>
    have hclients := g.clients_handleEngineEvent connId (.ack a)
    exact (hsame _ hclients).trans (by simp [targets])
  | reject r =>
    have hclients := g.clients_handleEngineEvent connId (.reject r)
    exact (hsame _ hclients).trans (by simp [targets])
  | bookTop t => simp [handleEngineEvent,targets]
  | accountState s => simp [handleEngineEvent,targets]
  | authSuccess a => simp [handleEngineEvent,targets]
  | authFailure a => simp [handleEngineEvent,targets]

end GatewayContext

namespace ClientConnections
variable {s s' : ClientConnections} {l l' : Ledger}

/-! ### What a step can do -/

inductive Stepped (s : ClientConnections) (l : Ledger) : ClientConnections → Ledger → Prop
  | idle : Stepped s l s l
  | accepted (connId : UInt64) (encodeEvent : Event → List UInt8) (hc : s.connections[connId]? = none) :
      Stepped s l { s with connections := s.connections.insert connId (.accept encodeEvent) }
        { l with owed := Function.update l.owed connId [] }
  | entered (connId : UInt64) (c : ClientConnection) (hc : s.connections[connId]? = some c)
      (hs : c.stage = .registering) (hfree : s.sending = none) :
      Stepped s l { s with connections := s.connections.insert connId { c with stage := .reading } }
        { l with since := Function.update l.since connId l.handled.length }
  | replied (connId : UInt64) (c c' : ClientConnection) (ev : Event) (hc : s.connections[connId]? = some c)
      (hs : c.stage = .reading) (hsend : c.send ev = some c') :
      Stepped s l { s with connections := s.connections.insert connId c' } (l.owe connId false ev)
  | hungUp (connId : UInt64) (c : ClientConnection) (hc : s.connections[connId]? = some c) (hs : c.stage = .reading) :
      Stepped s l { s with connections := s.connections.insert connId { c with stage := .leaving } } l
  | left (connId : UInt64) (c : ClientConnection) (hc : s.connections[connId]? = some c) (hs : c.stage = .leaving)
      (hfree : s.sending = none) : Stepped s l { s with connections := s.connections.erase connId } l
  | took (connId : UInt64) (c : ClientConnection) (frame : List UInt8) (rest : List (List UInt8))
      (hc : s.connections[connId]? = some c) (hq : c.queue = frame::rest) :
      Stepped s l
        { s with connections := s.connections.insert connId { c with queue := rest, fed := c.fed ++ [frame] } } l
  | failed (connId : UInt64) (c : ClientConnection) (hc : s.connections[connId]? = some c) :
      Stepped s l { s with connections := s.connections.insert connId c.fail } l
  | began (outs : List (UInt64 × Event)) (hfree : s.sending = none) : Stepped s l { s with sending := some outs } l
  | ended (hs : s.sending = some []) : Stepped s l { s with sending := none } l
  | skipped (connId : UInt64) (ev : Event) (rest : List (UInt64 × Event)) (hs : s.sending = some ((connId,ev)::rest))
      (hreg : s.registered connId = none) :
      Stepped s l { s with sending := some rest } { l with handled := l.handled ++ [(connId,ev)] }
  | delivered (connId : UInt64) (ev : Event) (rest : List (UInt64 × Event)) (c c' : ClientConnection)
      (hs : s.sending = some ((connId,ev)::rest)) (hreg : s.registered connId = some c) (hsend : c.send ev = some c') :
      Stepped s l ⟨s.connections.insert connId c',some rest⟩
        (({ l with handled := l.handled ++ [(connId,ev)] } : Ledger).owe connId true ev)

theorem insert_same {c : ClientConnection} {connId : UInt64} (hc : s.connections[connId]? = some c) :
    { s with connections := s.connections.insert connId c } = s := by
  rw [OrdMap.insert_eq_self.mpr hc]

theorem registered_eq_some {connId : UInt64} {c : ClientConnection} :
    s.registered connId = some c ↔ s.connections[connId]? = some c ∧ c.stage ≠ .registering := by
  simp [registered,Option.filter_eq_some_iff]

theorem replying_eq_some {connId : UInt64} {ev : Event} {c' : ClientConnection} : s.replying connId ev = some c' ↔
    ∃ c, s.connections[connId]? = some c ∧ c.stage = .reading ∧ c.send ev = some c' := by
  simp [replying,Option.bind_eq_some_iff,Option.filter_eq_some_iff,and_assoc]

theorem step_cases (s : ClientConnections) (l : Ledger) (a : Action) : Stepped s l (s.step a) (l.step s a) := by
  cases a with
  | accept connId encodeEvent =>
    simp only [step,Ledger.step,accept,Option.isNone_iff_eq_none]
    split_ifs with hc
    · exact .accepted connId encodeEvent hc
    · exact .idle
  | register connId =>
    simp only [step,Ledger.step,update,Option.isNone_iff_eq_none]
    by_cases hfree : s.sending = none
    · rw [if_pos hfree]
      cases hc : s.connections[connId]? with
      | none =>
        rw [if_neg (by simp)]
        exact .idle
      | some c =>
        by_cases hs : c.stage = .registering
        · rw [if_pos ⟨hfree,by simp [hs]⟩]
          simp only [ClientConnection.register,if_pos hs]
          exact .entered connId c hc hs hfree
        · rw [if_neg (by simp [hs])]
          simp only [ClientConnection.register,if_neg hs,insert_same hc]
          exact .idle
    · rw [if_neg hfree,if_neg fun h => hfree h.1]
      exact .idle
  | reply connId ev =>
    simp only [step,Ledger.step,reply]
    cases hr : s.replying connId ev with
    | none => exact .idle
    | some c' =>
      obtain ⟨c,hc,hs,hsend⟩ := replying_eq_some.mp hr
      exact .replied connId c c' ev hc hs hsend
  | hangUp connId =>
    simp only [step,Ledger.step,update]
    cases hc : s.connections[connId]? with
    | none => exact .idle
    | some c =>
      by_cases hs : c.stage = .reading
      · simp only [ClientConnection.hangUp,if_pos hs]
        exact .hungUp connId c hc hs
      · simp only [ClientConnection.hangUp,if_neg hs,insert_same hc]
        exact .idle
  | leave connId =>
    simp only [step,Ledger.step,leave,Option.isNone_iff_eq_none]
    split_ifs with hfree
    · cases hc : s.connections[connId]? with
      | none => exact .idle
      | some c =>
        simp only
        split_ifs with hs
        · exact .left connId c hc hs hfree
        · exact .idle
    · exact .idle
  | take connId =>
    simp only [step,Ledger.step,update]
    cases hc : s.connections[connId]? with
    | none => exact .idle
    | some c =>
      cases hq : c.queue with
      | nil =>
        simp only [ClientConnection.take,hq,insert_same hc]
        exact .idle
      | cons frame rest =>
        simp only [ClientConnection.take,hq]
        exact .took connId c frame rest hc hq
  | fail connId =>
    simp only [step,Ledger.step,update]
    cases hc : s.connections[connId]? with
    | none => exact .idle
    | some c => exact .failed connId c hc
  | handle connIds ev =>
    simp only [step,Ledger.step,Option.isNone_iff_eq_none]
    split_ifs with hfree
    · exact .began _ hfree
    · exact .idle
  | deliver =>
    simp only [step,Ledger.step,deliver,Ledger.deliver]
    split
    case h_1 hs =>
      simp only [hs]
      exact .idle
    case h_2 hs =>
      simp only [hs]
      exact .ended hs
    case h_3 connId ev rest hs =>
      simp only [hs]
      cases hreg : s.registered connId with
      | none => exact .skipped connId ev rest hs hreg
      | some c =>
        cases hsend : c.send ev with
        | none =>
          simp only [hsend,Option.isSome_none,Bool.false_eq_true,if_false]
          exact .idle
        | some c' =>
          simp only [hsend,Option.isSome_some,if_true]
          exact .delivered connId ev rest c c' hs hreg hsend

theorem execute_keeps {P : ClientConnections → Ledger → Prop}
    (hstep : ∀ {s s' l l'}, P s l → Stepped s l s' l' → P s' l') {s : ClientConnections × Ledger} (h : P s.1 s.2)
    (as : List Action) : P (execute s as).1 (execute s as).2 :=
  Machine.after_stays (m := machine) (P := fun s => P s.1 s.2) (fun s a hs => hstep hs (step_cases s.1 s.2 a)) h as

/-! ### What a client gets -/

/-- The frames of the events that were sent on a connection. -/
def frames (c : ClientConnection) (owed : List (Bool × Event)) : List (List UInt8) :=
  owed.map fun x => c.encodeEvent x.2

/-- Those of the engines. -/
def fromEngine (owed : List (Bool × Event)) : List Event := owed.filterMap fun x => if x.1 then some x.2 else none

/-- The events for one connection. -/
def eventsFor (connId : UInt64) (handled : List (UInt64 × Event)) : List Event :=
  handled.filterMap fun x => if x.1 = connId then some x.2 else none

/-- A connection has got, or holds, all that was sent on it, unless its write loop has ended. -/
structure Mail (c : ClientConnection) (owed : List (Bool × Event)) : Prop where
  running : c.writing = true → c.fed ++ c.queue = frames c owed
  fed : c.fed <+: frames c owed
  room : c.queue.length ≤ writeBufSize

theorem send_cases {c c' : ClientConnection} {ev : Event} (h : c.send ev = some c') :
    c.writing = false ∧ c' = c ∨
      c.writing = true ∧ c.queue.length < writeBufSize ∧ c' = { c with queue := c.queue ++ [c.encodeEvent ev] } := by
  unfold ClientConnection.send at h
  split_ifs at h with hw hroom
  · exact .inr ⟨hw,hroom,(Option.some.inj h).symm⟩
  · exact .inl ⟨by simpa using hw,(Option.some.inj h).symm⟩

namespace Mail
variable {c c' : ClientConnection} {owed : List (Bool × Event)}

theorem send (h : Mail c owed) {ev : Event} (hsend : c.send ev = some c') (b : Bool) : Mail c' (owed ++ [(b,ev)]) := by
  have hmore : frames c (owed ++ [(b,ev)]) = frames c owed ++ [c.encodeEvent ev] := List.map_append
  rcases send_cases hsend with ⟨hw,rfl⟩ | ⟨hw,hroom,rfl⟩
  · refine ⟨fun hw' => absurd (hw.symm.trans hw') (by simp),?_,h.room⟩
    rw [hmore]
    exact h.fed.trans (List.prefix_append ..)
  · have hall : c.fed ++ (c.queue ++ [c.encodeEvent ev]) = frames c (owed ++ [(b,ev)]) := by
      rw [hmore,← h.running hw,List.append_assoc]
    refine ⟨fun _ => hall,hall ▸ List.prefix_append ..,?_⟩
    rw [List.length_append]
    exact hroom

theorem take (h : Mail c owed) {frame : List UInt8} {rest : List (List UInt8)} (hq : c.queue = frame::rest)
    (hw : c.writing = true) : Mail { c with queue := rest, fed := c.fed ++ [frame] } owed := by
  have hall : (c.fed ++ [frame]) ++ rest = frames c owed := by
    rw [← h.running hw,hq,List.append_assoc]
    rfl
  refine ⟨fun _ => hall,hall ▸ List.prefix_append ..,?_⟩
  have hroom := h.room
  rw [hq] at hroom
  exact Nat.le_of_succ_le hroom

end Mail

/-- What holds of a connection: a new one has been sent nothing, and to a registered one the sending task has sent
all the engines' events for it since it was registered. -/
structure Served (connId : UInt64) (c : ClientConnection) (l : Ledger) : Prop where
  mail : Mail c (l.owed connId)
  ended : c.writing = false → c.queue = []
  fresh : c.stage = .registering → l.owed connId = []
  engine : c.stage ≠ .registering →
    fromEngine (l.owed connId) = eventsFor connId (l.handled.drop (l.since connId))

/-- It depends only on what was sent on the connection and on the events for it. -/
theorem Served.congr {connId : UInt64} {c : ClientConnection} (h : Served connId c l)
    (howed : l'.owed connId = l.owed connId) (hevents : eventsFor connId (l'.handled.drop (l'.since connId)) =
      eventsFor connId (l.handled.drop (l.since connId))) : Served connId c l' where
  mail := by rw [howed]; exact h.mail
  ended := h.ended
  fresh := by rw [howed]; exact h.fresh
  engine := by rw [howed,hevents]; exact h.engine

theorem owed_self (l : Ledger) (connId : UInt64) (b : Bool) (ev : Event) :
    (l.owe connId b ev).owed connId = l.owed connId ++ [(b,ev)] := Function.update_self ..

theorem owed_other (l : Ledger) {connId a : UInt64} (ha : a ≠ connId) (b : Bool) (ev : Event) :
    (l.owe connId b ev).owed a = l.owed a := Function.update_of_ne ha ..

theorem fromEngine_append (owed : List (Bool × Event)) (b : Bool) (ev : Event) :
    fromEngine (owed ++ [(b,ev)]) = fromEngine owed ++ if b then [ev] else [] := by
  rw [fromEngine,List.filterMap_append]
  cases b <;> rfl

theorem eventsFor_drop {handled : List (UInt64 × Event)} {n : ℕ} (hn : n ≤ handled.length) (a connId : UInt64)
    (ev : Event) : eventsFor a ((handled ++ [(connId,ev)]).drop n) =
      eventsFor a (handled.drop n) ++ if connId = a then [ev] else [] := by
  rw [List.drop_append_of_le_length hn,eventsFor,List.filterMap_append]
  by_cases h : connId = a <;> simp [eventsFor,h]

structure Sound (s : ClientConnections) (l : Ledger) : Prop where
  served : ∀ connId c, s.connections[connId]? = some c → Served connId c l
  since : ∀ connId, l.since connId ≤ l.handled.length

namespace Sound

/-- Only one connection is changed. -/
theorem insert (h : Sound s l) {connId : UInt64} {c' : ClientConnection} {sending : Option (List (UInt64 × Event))}
    (hone : Served connId c' l') (hothers : ∀ a c, a ≠ connId → Served a c l → Served a c l')
    (hsince : ∀ a, l'.since a ≤ l'.handled.length) : Sound ⟨s.connections.insert connId c',sending⟩ l' := by
  refine ⟨fun a c hc => ?_,hsince⟩
  rw [OrdMap.get_insert] at hc
  split_ifs at hc with ha
  · obtain rfl := Option.some.inj hc
    exact ha ▸ hone
  · exact hothers a c (fun h => ha h.symm) (h.served a c hc)

/-- What sending an event makes of a connection. -/
theorem sent (h : Sound s l) {connId : UInt64} {c c' : ClientConnection} {ev : Event} {b : Bool}
    (hc : s.connections[connId]? = some c) (hread : c.stage ≠ .registering) (hsend : c.send ev = some c')
    (howed : l'.owed connId = l.owed connId ++ [(b,ev)])
    (hevents : eventsFor connId (l'.handled.drop (l'.since connId)) =
      eventsFor connId (l.handled.drop (l.since connId)) ++ if b then [ev] else []) : Served connId c' l' := by
  have hold := h.served connId c hc
  refine ⟨howed ▸ hold.mail.send hsend b,?_,?_,fun _ => ?_⟩
  · rcases send_cases hsend with ⟨-,rfl⟩ | ⟨hw,-,rfl⟩
    · exact hold.ended
    · exact fun hw' => absurd (hw.symm.trans hw') (by simp)
  · rcases send_cases hsend with ⟨-,rfl⟩ | ⟨-,-,rfl⟩ <;> exact fun hn => absurd hn hread
  · rw [howed,hevents,fromEngine_append,hold.engine hread]

theorem step (h : Sound s l) (hs : Stepped s l s' l') : Sound s' l' := by
  cases hs with
  | idle => exact h
  | accepted connId encodeEvent hc =>
    have howed : Function.update l.owed connId [] connId = [] := Function.update_self ..
    refine h.insert ⟨⟨fun _ => ?_,List.nil_prefix,Nat.zero_le _⟩,fun _ => rfl,fun _ => howed,fun hn => absurd rfl hn⟩
      (fun a c ha hserved => hserved.congr (Function.update_of_ne ha ..) rfl) h.since
    exact (congrArg (frames _) howed).symm
  | entered connId c hc hst hfree =>
    have hold := h.served connId c hc
    have hsince : Function.update l.since connId l.handled.length connId = l.handled.length := Function.update_self ..
    refine h.insert ⟨⟨hold.mail.running,hold.mail.fed,hold.mail.room⟩,hold.ended,fun hn => by (cases hn),fun _ => ?_⟩
      (fun a c ha hserved => hserved.congr rfl ?_) fun a => ?_
    · change fromEngine (l.owed connId) = eventsFor connId (l.handled.drop (Function.update l.since connId _ connId))
      rw [hsince,List.drop_length,hold.fresh hst]
      rfl
    · change eventsFor a (l.handled.drop (Function.update l.since connId _ a)) = _
      rw [Function.update_of_ne ha]
    · change Function.update l.since connId _ a ≤ l.handled.length
      by_cases ha : a = connId
      · rw [ha,hsince]
      · rw [Function.update_of_ne ha]
        exact h.since a
  | replied connId c c' ev hc hst hsend =>
    exact h.insert (h.sent hc (by simp [hst]) hsend (owed_self ..) (List.append_nil _).symm)
      (fun a c ha hserved => hserved.congr (owed_other l ha false ev) rfl) h.since
  | hungUp connId c hc hst =>
    have hold := h.served connId c hc
    exact h.insert ⟨⟨hold.mail.running,hold.mail.fed,hold.mail.room⟩,hold.ended,fun hn => by (cases hn),
      fun _ => hold.engine (by simp [hst])⟩ (fun _ _ _ hserved => hserved) h.since
  | left connId c hc hst hfree =>
    refine ⟨fun a c hc => ?_,h.since⟩
    rw [OrdMap.get_erase] at hc
    split_ifs at hc
    exact h.served a c hc
  | took connId c frame rest hc hq =>
    have hold := h.served connId c hc
    have hw : c.writing = true := by
      by_contra hw
      rw [hold.ended (by simpa using hw)] at hq
      cases hq
    exact h.insert ⟨hold.mail.take hq hw,fun hw' => absurd (hw.symm.trans hw') (by simp),hold.fresh,hold.engine⟩
      (fun _ _ _ hserved => hserved) h.since
  | failed connId c hc =>
    have hold := h.served connId c hc
    exact h.insert ⟨⟨fun hw => by (cases hw),hold.mail.fed,Nat.zero_le _⟩,fun _ => rfl,hold.fresh,hold.engine⟩
      (fun _ _ _ hserved => hserved) h.since
  | began outs hfree => exact ⟨h.served,h.since⟩
  | ended hs => exact ⟨h.served,h.since⟩
  | skipped connId ev rest hs hreg =>
    refine ⟨fun a c hc => ?_,fun a => ?_⟩
    · obtain ⟨hmail,hended,hfresh,hengine⟩ := h.served a c hc
      refine ⟨hmail,hended,hfresh,fun hn => ?_⟩
      have ha : connId ≠ a := by
        rintro rfl
        have hin : s.registered connId = some c := registered_eq_some.mpr ⟨hc,hn⟩
        rw [hreg] at hin
        cases hin
      rw [eventsFor_drop (h.since a),if_neg ha,List.append_nil]
      exact hengine hn
    · rw [List.length_append]
      exact Nat.le_succ_of_le (h.since a)
  | delivered connId ev rest c c' hs hreg hsend =>
    obtain ⟨hc,hread⟩ := registered_eq_some.mp hreg
    refine h.insert (h.sent hc hread hsend (owed_self ..) ?_)
      (fun a c ha hserved => hserved.congr (owed_other _ ha true ev) ?_)
      fun a => ?_
    · exact (eventsFor_drop (h.since connId) connId connId ev).trans (by rw [if_pos rfl,if_pos rfl])
    · refine (eventsFor_drop (h.since a) a connId ev).trans ?_
      rw [if_neg ha.symm,List.append_nil]
    · change l.since a ≤ (l.handled ++ [(connId,ev)]).length
      rw [List.length_append]
      exact Nat.le_succ_of_le (h.since a)

theorem start : Sound empty Ledger.empty :=
  ⟨fun connId c hc => absurd hc (by simp [empty]),fun _ => Nat.le_refl _⟩

end Sound

/-- Whatever the order of the steps, a client gets the frames of what was sent on its connection, in order and none
twice. While its write loop runs nothing is lost, and the engines' events among it are all those for the connection
since it was registered. -/
theorem client_hears (as : List Action) :
    let s := execute (empty,Ledger.empty) as
    ∀ connId c, s.1.connections[connId]? = some c →
      c.fed <+: frames c (s.2.owed connId) ∧
        (c.writing = true → c.fed ++ c.queue = frames c (s.2.owed connId)) ∧ c.queue.length ≤ writeBufSize ∧
        (c.stage ≠ .registering →
          fromEngine (s.2.owed connId) = eventsFor connId (s.2.handled.drop (s.2.since connId))) := by
  intro s connId c hc
  have h := (execute_keeps (P := Sound) Sound.step (s := (empty,Ledger.empty)) Sound.start as).served connId c hc
  exact ⟨h.mail.fed,h.mail.running,h.mail.room,h.engine⟩

/-! ### A client that does not read -/

/-- The sending task waits for room in the channel of a connection. -/
structure Stuck (s : ClientConnections) (connId : UInt64) (ev : Event) (rest : List (UInt64 × Event)) : Prop where
  sending : s.sending = some ((connId,ev)::rest)
  full : ∃ c, s.registered connId = some c ∧ c.writing = true ∧ writeBufSize ≤ c.queue.length

/-- The steps by which room can come. -/
def frees (connId : UInt64) : Action → Bool
  | .take a => a == connId
  | .fail a => a == connId
  | _ => false

/-- The sending task still waits, and the registry has the same connections. -/
structure Stalled (s₀ : ClientConnections) (connId : UInt64) (ev : Event) (rest : List (UInt64 × Event))
    (s : ClientConnections) : Prop where
  stuck : Stuck s connId ev rest
  registry : ∀ a, (s.registered a).isSome = (s₀.registered a).isSome

namespace Stalled
variable {s₀ : ClientConnections} {connId : UInt64} {ev : Event} {rest : List (UInt64 × Event)}

/-- A connection that stays in the registry, or out of it. -/
theorem insert (h : Stalled s₀ connId ev rest s) {a : UInt64} {c c' : ClientConnection}
    (hc : s.connections[a]? = some c) (hstage : c'.stage = .registering ↔ c.stage = .registering)
    (hkeep : a = connId → c'.writing = c.writing ∧ c'.queue = c.queue) :
    Stalled s₀ connId ev rest { s with connections := s.connections.insert a c' } := by
  obtain ⟨⟨hsending,c₁,hreg,hw,hq⟩,hregistry⟩ := h
  refine ⟨⟨hsending,?_⟩,fun x => ?_⟩
  · obtain ⟨hin,hst⟩ := registered_eq_some.mp hreg
    by_cases ha : a = connId
    · subst ha
      obtain rfl := Option.some.inj (hc.symm.trans hin)
      obtain ⟨hw',hq'⟩ := hkeep rfl
      exact ⟨c',registered_eq_some.mpr ⟨by simp,fun hn => hst (hstage.mp hn)⟩,hw'.trans hw,hq'.symm ▸ hq⟩
    · exact ⟨c₁,registered_eq_some.mpr ⟨by simp [ha,hin],hst⟩,hw,hq⟩
  · rw [← hregistry x]
    by_cases ha : a = x
    · subst ha
      simp only [registered,OrdMap.get_insert,if_pos,hc,Option.filter_some]
      by_cases hst : c.stage = .registering <;> simp [hst,hstage]
    · simp only [registered,OrdMap.get_insert,if_neg ha]

theorem update (h : Stalled s₀ connId ev rest s) (a : UInt64) {f : ClientConnection → ClientConnection}
    (hstage : ∀ c, (f c).stage = .registering ↔ c.stage = .registering)
    (hkeep : a = connId → ∀ c, (f c).writing = c.writing ∧ (f c).queue = c.queue) :
    Stalled s₀ connId ev rest (s.update a f) := by
  unfold ClientConnections.update
  split
  case h_1 => exact h
  case h_2 c hc => exact h.insert hc (hstage c) fun ha => hkeep ha c

theorem step (h : Stalled s₀ connId ev rest s) {a : Action} (ha : frees connId a = false) :
    Stalled s₀ connId ev rest (s.step a) ∧ ∀ l : Ledger, (l.step s a).handled = l.handled := by
  obtain ⟨c,hreg,hw,hq⟩ := h.stuck.full
  have hsending := h.stuck.sending
  have hfull : ∀ ev, c.send ev = none := fun ev => by
    rw [ClientConnection.send,if_pos hw,if_neg (Nat.not_lt.mpr hq)]
  cases a with
  | accept a encodeEvent =>
    refine ⟨?_,fun l => ?_⟩
    · simp only [ClientConnections.step,accept]
      split_ifs with hnone
      · obtain ⟨hin,hst⟩ := registered_eq_some.mp hreg
        have hne : a ≠ connId := by
          rintro rfl
          rw [hin] at hnone
          cases hnone
        refine ⟨⟨hsending,c,registered_eq_some.mpr ⟨by simp [hne,hin],hst⟩,hw,hq⟩,fun x => ?_⟩
        rw [← h.registry x]
        by_cases hx : a = x
        · subst hx
          rw [Option.isNone_iff_eq_none] at hnone
          simp [registered,hnone,ClientConnection.accept]
        · simp [registered,hx]
      · exact h
    · simp only [Ledger.step]
      split_ifs <;> rfl
  | register a => simpa [ClientConnections.step,Ledger.step,hsending] using h
  | reply a ev' =>
    refine ⟨?_,fun l => ?_⟩
    · simp only [ClientConnections.step,reply]
      split
      case h_1 => exact h
      case h_2 c' hreply =>
        obtain ⟨c₁,hc₁,hst,hsend⟩ := replying_eq_some.mp hreply
        refine h.insert hc₁ ?_ fun ha => ?_
        · rcases send_cases hsend with ⟨-,rfl⟩ | ⟨-,-,rfl⟩ <;> rfl
        · subst ha
          obtain rfl := Option.some.inj (hc₁.symm.trans (registered_eq_some.mp hreg).1)
          rw [hfull ev'] at hsend
          cases hsend
    · simp only [Ledger.step]
      split_ifs <;> rfl
  | hangUp a =>
    refine ⟨h.update a (fun c => ?_) fun _ c => ?_,fun _ => rfl⟩
    · unfold ClientConnection.hangUp
      split_ifs with hst <;> simp [hst]
    · unfold ClientConnection.hangUp
      split_ifs <;> exact ⟨rfl,rfl⟩
  | leave a => simpa [ClientConnections.step,Ledger.step,hsending] using h
  | take a =>
    refine ⟨h.update a (fun c => ?_) fun hn => ?_,fun _ => rfl⟩
    · unfold ClientConnection.take
      split <;> rfl
    · simp [frees,hn] at ha
  | fail a =>
    refine ⟨h.update a (fun c => Iff.rfl) fun hn => ?_,fun _ => rfl⟩
    simp [frees,hn] at ha
  | handle connIds ev' => simpa [ClientConnections.step,Ledger.step,hsending] using h
  | deliver =>
    have hsame : s.deliver = s := by
      rw [deliver,hsending]
      simp only [hreg,hfull]
    refine ⟨?_,fun l => ?_⟩
    · rw [ClientConnections.step,hsame]
      exact h
    · simp [Ledger.step,Ledger.deliver,hsending,hreg,hfull]

theorem run {x : ClientConnections × Ledger} (h : Stalled s₀ connId ev rest x.1) {as : List Action}
    (has : ∀ a ∈ as, frees connId a = false) :
    Stalled s₀ connId ev rest (execute x as).1 ∧ (execute x as).2.handled = x.2.handled := by
  induction as generalizing x with
  | nil => exact ⟨h,rfl⟩
  | cons a as ih =>
    obtain ⟨hstep,hsame⟩ := h.step (has a (List.mem_cons_self ..))
    obtain ⟨hrest,hhandled⟩ := ih (x := (_,_)) hstep fun b hb => has b (List.mem_cons_of_mem _ hb)
    exact ⟨hrest,hhandled.trans (hsame x.2)⟩

end Stalled

/-- While one client does not read and its channel is full, no other client gets an event of any engine, nobody is
registered and nobody leaves, whatever else is done. -/
theorem slow_client_stalls (x : ClientConnections × Ledger) {connId : UInt64} {ev : Event}
    {rest : List (UInt64 × Event)} (h : Stuck x.1 connId ev rest) {as : List Action}
    (has : ∀ a ∈ as, frees connId a = false) :
    let x' := execute x as
    Stuck x'.1 connId ev rest ∧ x'.2.handled = x.2.handled ∧
      ∀ a, (x'.1.registered a).isSome = (x.1.registered a).isSome := by
  have hstalled : Stalled x.1 connId ev rest x.1 := ⟨h,fun _ => rfl⟩
  obtain ⟨⟨hstuck,hregistry⟩,hhandled⟩ := hstalled.run has
  exact ⟨hstuck,hhandled,hregistry⟩

/-- An event for the connection is handled while there is room in its channel. -/
def round (connId : UInt64) (ev : Event) : List Action := [.handle [connId] ev,.deliver,.deliver]

/-- The sending task is free, and the channel of a registered connection holds some frames. -/
def Holds (x : ClientConnections × Ledger) (connId : UInt64) (n : ℕ) : Prop :=
  x.1.sending = none ∧ ∃ c, x.1.registered connId = some c ∧ c.writing = true ∧ c.queue.length = n

theorem holds_round {x : ClientConnections × Ledger} {connId : UInt64} {n : ℕ} (ev : Event) (h : Holds x connId n)
    (hn : n < writeBufSize) : Holds (execute x (round connId ev)) connId (n+1) := by
  obtain ⟨hfree,c,hreg,hw,hq⟩ := h
  obtain ⟨hin,hst⟩ := registered_eq_some.mp hreg
  have hsend : c.send ev = some { c with queue := c.queue ++ [c.encodeEvent ev] } := by
    rw [ClientConnection.send,if_pos hw,if_pos (by rw [hq]; exact hn)]
  have hround : (execute x (round connId ev)).1 =
      ⟨x.1.connections.insert connId { c with queue := c.queue ++ [c.encodeEvent ev] },none⟩ := by
    have hreg' : registered ⟨x.1.connections,some [(connId,ev)]⟩ connId = some c := hreg
    simp [execute,machine,round,step,deliver,hfree,hreg',hsend]
  rw [Holds,hround]
  exact ⟨rfl,{ c with queue := c.queue ++ [c.encodeEvent ev] },registered_eq_some.mpr ⟨by simp,hst⟩,hw,by simp [hq]⟩

theorem holds_rounds {connId : UInt64} (ev : Event) (n : ℕ) {x : ClientConnections × Ledger} {k : ℕ}
    (h : Holds x connId k) (hn : k+n ≤ writeBufSize) :
    Holds (execute x (List.replicate n (round connId ev)).flatten) connId (k+n) := by
  induction n generalizing x k with
  | zero => exact h
  | succ n ih =>
    rw [List.replicate_succ,List.flatten_cons,execute,Machine.after_append]
    have hrest := ih (holds_round ev h (by omega)) (by omega)
    rwa [show k+1+n = k+(n+1) by omega] at hrest

theorem Holds.stuck {x : ClientConnections × Ledger} {connId : UInt64} (h : Holds x connId writeBufSize) (ev : Event) :
    Stuck (execute x [.handle [connId] ev]).1 connId ev [] := by
  obtain ⟨hfree,c,hreg,hw,hq⟩ := h
  have hstep : (execute x [.handle [connId] ev]).1 = ⟨x.1.connections,some [(connId,ev)]⟩ := by
    simp [execute,machine,step,hfree]
  rw [hstep]
  exact ⟨rfl,c,hreg,hw,hq.ge⟩

/-- A client that connects and does not read stops everybody with its 1025th event. -/
theorem unread_stalls : ∃ as, Stuck (execute (empty,Ledger.empty) as).1 1 (.authSuccess ⟨1⟩) [] ∧
    ∀ later, (∀ a ∈ later, frees 1 a = false) →
      (execute (execute (empty,Ledger.empty) as) later).2.handled = (execute (empty,Ledger.empty) as).2.handled := by
  have hfirst : Holds (execute (empty,Ledger.empty) [.accept 1 BinaryCodec.encodeEvent,.register 1]) 1 0 :=
    ⟨by simp [execute,machine,step,accept,update,empty],⟨BinaryCodec.encodeEvent,.reading,true,[],[]⟩,
      by simp [execute,machine,step,accept,update,empty,registered,ClientConnection.register,ClientConnection.accept],rfl,rfl⟩
  have hfull := holds_rounds (.authSuccess ⟨1⟩) writeBufSize hfirst (Nat.zero_add _).le
  rw [Nat.zero_add] at hfull
  have hstuck := hfull.stuck (.authSuccess ⟨1⟩)
  have hjoin : ∀ x as bs, execute (execute x as) bs = execute x (as ++ bs) := fun x as bs =>
    (machine.after_append x as bs).symm
  rw [hjoin,hjoin] at hstuck
  exact ⟨_,hstuck,fun later hlater => (slow_client_stalls _ hstuck hlater).2.1⟩

end ClientConnections
end Gateway
end HighPerfTrading
