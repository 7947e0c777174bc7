import HighPerfTrading.Gateway.ClientDelivery
import HighPerfTrading.System.Authorization
import HighPerfTrading.System.DeploymentRefines

/-! A command that comes to a full queue of the engine server is dropped, and nobody is told: the gateway holds the
reservation of the order until a client names the order again. -/
namespace HighPerfTrading
open Gateway OrderBook

/-- The orders that an event names. -/
def Event.orders : Event → List OrderId
  | .ack a => [a.orderId]
  | .reject r => r.orderId.toList
  | .fill f => [f.makerOrderId,f.takerOrderId]
  | _ => []

/-! ### The engine -/

/-- No order of the book has the id. -/
def OrderBook.Lacks {S : Type} [Slab S Order] (b : OrderBook S) (id : OrderId) : Prop :=
  ∀ k o, liveAt b.orders k = some o → o.orderId ≠ id

/-- A command for another order neither names the order nor brings it into the book. -/
theorem Engine.process_lacks {S : Type} [Slab S Order] (e : Engine S) {cmd : Command} {id : OrderId}
    (hcmd : answeredOrder cmd ≠ some id) (hbook : e.book.Lacks id) :
    (∀ ev ∈ (e.process cmd).2, id ∉ ev.orders) ∧ (e.live cmd).book.Lacks id := by
  have h := e.live_confined cmd
  refine ⟨fun ev hev hid => ?_,fun k o ho hid => ?_⟩
  · cases ev with
    | ack a =>
      have ha := List.mem_singleton.mp hid
      exact hcmd (ha ▸ h.acks a hev)
    | reject r => exact hcmd ((h.rejects r hev).trans (Option.mem_toList.mp hid))
    | fill f =>
      obtain ⟨htaker,k,o,ho,hmaker⟩ := h.fills f hev
      rcases List.mem_cons.mp hid with rfl | hid
      · exact hbook k o ho hmaker
      · exact hcmd (List.mem_singleton.mp hid ▸ htaker)
    | bookTop t => cases hid
    | accountState s => cases hid
    | authSuccess a => cases hid
    | authFailure a => cases hid
  · rcases h.comes k o ho with ⟨o₀,ho₀,hred⟩ | ⟨hown,-⟩
    · exact hbook k o₀ ho₀ (hred.orderId.trans hid)
    · exact hcmd (hid ▸ hown)

/-! ### The engine server -/

namespace EngineServer
variable {S : Type} [Slab S Order] {postcard : ServerPostcard} {crc32 : List UInt8 → UInt32} {args : Args} {id : OrderId}

/-- Nothing in the server or on its way from it is about the order. -/
structure Unheard (postcard : ServerPostcard) (id : OrderId) (c : Connection S) : Prop where
  waiting : ∀ inb ∈ c.waiting, answeredOrder inb.cmd ≠ some id
  book : c.server.engine.book.Lacks id
  delivered : ∀ out ∈ c.delivered postcard, id ∉ out.ev.orders
  outgoing : ∀ out ∈ c.egress ++ c.thread.unsent, id ∉ out.ev.orders
  quiet : ∀ m ∈ c.responses, clientEvent m = none

namespace Unheard
variable {c c' : Connection S} {l l' : Ledger}

theorem step (h : Unheard postcard id c) (hs : Stepped postcard crc32 args c l c' l') (hframes : l'.frames = l.frames) :
    Unheard postcard id c' := by
  obtain ⟨hwaiting,hbook,hdelivered,houtgoing,hquiet⟩ := h
  cases hs with
  | idle => exact ⟨hwaiting,hbook,hdelivered,houtgoing,hquiet⟩
  | skipped hr => exact absurd hframes (Nat.succ_ne_self _)
  | dropped inb hr hfull => exact absurd hframes (Nat.succ_ne_self _)
  | accepted inb hr hroom => exact absurd hframes (Nat.succ_ne_self _)
  | asked hr => exact absurd hframes (Nat.succ_ne_self _)
  | unheard hr => exact absurd hframes (Nat.succ_ne_self _)
  | ended hr => exact ⟨hwaiting,hbook,hdelivered,houtgoing,hquiet⟩
  | counted hr => exact ⟨hwaiting,hbook,hdelivered,houtgoing,hquiet⟩
  | relayed orders hr hw =>
    refine ⟨hwaiting,hbook,hdelivered,houtgoing,fun m hm => ?_⟩
    rcases List.mem_append.mp hm with hm | hm
    · exact hquiet m hm
    · rw [List.mem_singleton.mp hm]
      rfl
  | unrelayed orders hr hw => exact ⟨hwaiting,hbook,hdelivered,houtgoing,hquiet⟩
  | unanswered hr ht => exact ⟨hwaiting,hbook,hdelivered,houtgoing,hquiet⟩
  | received inb rest ht hq =>
    rw [ht] at houtgoing
    rw [Connection.waiting,ht,hq] at hwaiting
    exact ⟨hwaiting,hbook,hdelivered,houtgoing,hquiet⟩
  | processed inb elapsed ht =>
    rw [Connection.waiting,ht] at hwaiting
    rw [ht] at houtgoing
    obtain ⟨hevents,hlacks⟩ := c.server.engine.process_lacks (hwaiting inb (List.mem_cons_self ..)) hbook
    refine ⟨fun x hx => hwaiting x (List.mem_cons_of_mem _ hx),hlacks,hdelivered,fun out hout => ?_,hquiet⟩
    rcases List.mem_append.mp hout with hout | hout
    · exact houtgoing out (List.mem_append_left _ hout)
    · obtain ⟨ev,hev,rfl⟩ := List.mem_map.mp hout
      exact hevents ev hev
  | sent connId ev evs ht hw =>
    rw [ht] at houtgoing
    rw [Connection.waiting,ht] at hwaiting
    refine ⟨hwaiting,hbook,hdelivered,?_,hquiet⟩
    rw [List.append_assoc]
    exact houtgoing
  | cut connId ev evs ht hw =>
    rw [Connection.waiting,ht] at hwaiting
    exact ⟨hwaiting,hbook,hdelivered,fun out hout => houtgoing out (List.mem_append_left _
      (by simpa [EngineThread.unsent] using hout)),hquiet⟩
  | finished connId timestamp ht =>
    rw [ht] at houtgoing
    rw [Connection.waiting,ht] at hwaiting
    refine ⟨hwaiting,?_,hdelivered,houtgoing,hquiet⟩
    rw [engine_finish postcard crc32 c.server timestamp]
    exact hbook
  | closed ht hq hr =>
    rw [ht] at houtgoing
    rw [Connection.waiting,ht] at hwaiting
    exact ⟨hwaiting,hbook,hdelivered,houtgoing,hquiet⟩
  | answered ht hr => exact ⟨hwaiting,hbook,hdelivered,houtgoing,hquiet⟩
  | ticked hw => exact ⟨hwaiting,hbook,hdelivered,houtgoing,hquiet⟩
  | fed out rest hw he =>
    rw [he] at houtgoing
    refine ⟨hwaiting,hbook,fun x hx => ?_,fun x hx => houtgoing x (List.mem_cons_of_mem _ hx),hquiet⟩
    rw [Connection.delivered,delivered_feed] at hx
    rcases List.mem_append.mp hx with hx | hx
    · exact hdelivered x hx
    · rw [List.mem_singleton.mp hx]
      exact houtgoing out (List.mem_cons_self ..)
  | flushed hw he => exact ⟨hwaiting,hbook,hdelivered,houtgoing,hquiet⟩
  | responded m rest hw hm =>
    rw [hm] at hquiet
    refine ⟨hwaiting,hbook,fun x hx => ?_,houtgoing,fun x hx => hquiet x (List.mem_cons_of_mem _ hx)⟩
    rw [Connection.delivered,delivered_respond _ _ (hquiet m (List.mem_cons_self ..))] at hx
    exact hdelivered x hx
  | stopped =>
    exact ⟨hwaiting,hbook,hdelivered,fun out hout => houtgoing out (List.mem_append_right _ hout),by
      simp [Connection.writerReturns]⟩

/-- A frame for another order, or any frame that comes to a full queue. -/
theorem readFrame (h : Unheard postcard id c) {bytes : List UInt8} (hbytes : args.ingressCap ≤ c.ingress.length ∨
    ∀ exec, postcard.toEngine.decode bytes = some (.execute exec) → answeredOrder exec.command ≠ some id) :
    Unheard postcard id (c.readFrame postcard args bytes) := by
  obtain ⟨hwaiting,hbook,hdelivered,houtgoing,hquiet⟩ := h
  unfold Connection.readFrame
  split_ifs with hr hlong
  · exact ⟨hwaiting,hbook,hdelivered,houtgoing,hquiet⟩
  · exact ⟨hwaiting,hbook,hdelivered,houtgoing,hquiet⟩
  · cases hm : postcard.toEngine.decode bytes with
    | none => exact ⟨hwaiting,hbook,hdelivered,houtgoing,hquiet⟩
    | some m =>
      cases m with
      | ping => exact ⟨hwaiting,hbook,hdelivered,houtgoing,hquiet⟩
      | queryAllOrders =>
        simp only [Connection.query]
        split_ifs <;> exact ⟨hwaiting,hbook,hdelivered,houtgoing,hquiet⟩
      | execute exec =>
        simp only [Connection.trySend]
        split_ifs with hroom
        · refine ⟨fun inb hinb => ?_,hbook,hdelivered,houtgoing,hquiet⟩
          rw [Connection.waiting,← List.append_assoc] at hinb
          rcases List.mem_append.mp hinb with hinb | hinb
          · exact hwaiting inb hinb
          · rw [List.mem_singleton.mp hinb]
            exact (hbytes.resolve_left (Nat.not_le.mpr hroom.2)) exec hm
        · exact ⟨hwaiting,hbook,hdelivered,houtgoing,hquiet⟩

end Unheard
end EngineServer

/-! ### The gateway -/

namespace Gateway.GatewayContext
variable (g : GatewayContext) (connId : UInt64)

theorem reject_replies (cs : UInt64) (orderId : Option OrderId) (reason : RejectReason) :
    ∀ ev ∈ (g.reject cs orderId reason).2.2, ∀ i ∈ ev.orders, orderId = some i := by
  intro ev hev i hi
  rw [List.mem_singleton.mp hev] at hi
  exact Option.mem_toList.mp hi

theorem route_replies (cmd : Command) (token : ReservationToken) (routed : Bool) :
    ∀ ev ∈ (g.route connId cmd token routed).2.2, ∀ i ∈ ev.orders, commandOrderId cmd = some i := by
  intro ev hev i hi
  cases routed with
  | true => cases hev
  | false =>
    have hid := reject_replies _ _ _ _ ev hev i hi
    cases cmd with
    | newOrder no => exact hid
    | cancel c => exact hid
    | replace r => exact hid
    | _ => cases hid

/-- The gateway's own replies to a command name no other order. -/
theorem handleCommand_replies (cmd : Command) (routed : Bool) :
    ∀ ev ∈ (g.handleCommand connId cmd routed).2.2, ∀ i ∈ ev.orders, commandOrderId cmd = some i := by
  have hsession : ∀ {cmd : Command}, ∀ ev ∈ (g.reject 0 none .invalid).2.2, ∀ i ∈ ev.orders,
      commandOrderId cmd = some i := fun ev hev i hi => by
    have hid := g.reject_replies _ _ _ ev hev i hi
    cases hid
  cases cmd with
  | queryAccount q =>
    intro ev hev i hi
    simp only [handleCommand,handleQueryAccount] at hev
    split at hev
    · have hid := g.reject_replies _ _ _ ev hev i hi
      cases hid
    · rw [List.mem_singleton.mp hev] at hi
      cases hi
  | authenticate auth =>
    intro ev hev i hi
    simp only [handleCommand,handleAuthenticate] at hev
    split at hev <;> rw [List.mem_singleton.mp hev] at hi <;> cases hi
  | cancel c =>
    simp only [handleCommand]
    split_ifs
    · exact hsession
    · simp only [handleCancel]
      split_ifs
      · simp
      · exact reject_replies _ _ _ _
  | replace r =>
    simp only [handleCommand]
    split_ifs
    · exact hsession
    · unfold handleReplace
      split
      · exact g.reject_replies _ _ _
      · split
        · exact g.reject_replies _ _ _
        · exact route_replies _ connId (.replace r) _ routed
  | newOrder no =>
    simp only [handleCommand]
    split_ifs
    · exact hsession
    · unfold handleReserving
      split
      · exact g.reject_replies _ _ _
      · exact route_replies _ connId (.newOrder no) _ routed
  | setRiskLimits srl =>
    simp only [handleCommand]
    split_ifs
    · exact hsession
    · unfold handleReserving
      split
      · intro ev hev i hi
        have hid := g.reject_replies _ _ _ ev hev i hi
        cases hid
      · exact route_replies _ connId (.setRiskLimits srl) _ routed

/-- An event that does not name an order leaves its entry. -/
theorem handleEngineEvent_unnamed (ev : Event) {id : OrderId} (h : id ∉ ev.orders) :
    (g.handleEngineEvent connId ev).1.pendingOrders[id]? = g.pendingOrders[id]? ∧
      ∀ y ∈ (g.handleEngineEvent connId ev).2, y.2 = ev := by
  constructor
  · have hkeeps : g.drops ev id = false := by
      cases ev with
      | ack a =>
        have hne : id ≠ a.orderId := fun he => h (List.mem_singleton.mpr he)
        simp [drops,hne]
      | reject r =>
        have hne : r.orderId ≠ some id := fun he => h (Option.mem_toList.mpr he)
        simp [drops,hne]
      | fill f =>
        have hne : ¬ (id = f.makerOrderId ∨ id = f.takerOrderId) := by simpa [Event.orders] using h
        simp [drops,hne]
      | _ => rfl
    rw [get_handleEngineEvent,hkeeps]
    rfl
  · intro y hy
    rw [handleEngineEvent_targets] at hy
    obtain ⟨c,-,hy⟩ := List.mem_flatMap.mp hy
    unfold sendTo at hy
    split_ifs at hy
    · rw [List.mem_singleton.mp hy]
    · cases hy

end Gateway.GatewayContext

/-! ### Runs -/

namespace Deployment
open EngineServer (clientEvent)
variable {S : Type}

/-- The frames of clients are about other orders. -/
def LeavesOrder (id : OrderId) (d : Deployment S) : Action → Prop
  | .frame connId bytes _ => ((d.gateway.decoded connId bytes).bind answeredOrder) ≠ some id
  | _ => True

/-- Whenever the frame is the next one to be read, the engine's queue is full. -/
def FindsFull (args : EngineServer.Args) (frame : List UInt8) (d : Deployment S) : Action → Prop
  | .arrive => d.link.sent.head? = some frame → args.ingressCap ≤ d.link.connection.ingress.length
  | _ => True

instance (id : OrderId) (d : Deployment S) (a : Action) : Decidable (LeavesOrder id d a) :=
  match a with
  | .frame .. => inferInstanceAs (Decidable (_ ≠ _))
  | .connect _ => isTrue trivial
  | .disconnect _ => isTrue trivial
  | .arrive => isTrue trivial
  | .server _ => isTrue trivial
  | .readEvent => isTrue trivial
  | .handleResponse => isTrue trivial

instance (args : EngineServer.Args) (frame : List UInt8) (d : Deployment S) (a : Action) :
    Decidable (FindsFull args frame d a) :=
  match a with
  | .arrive => inferInstanceAs (Decidable (_ → _))
  | .frame .. => isTrue trivial
  | .connect _ => isTrue trivial
  | .disconnect _ => isTrue trivial
  | .server _ => isTrue trivial
  | .readEvent => isTrue trivial
  | .handleResponse => isTrue trivial

variable [Slab S Order] {postcard : ServerPostcard} {crc32 : List UInt8 → UInt32} {args : EngineServer.Args} {id : OrderId}

/-- But for one frame of the gateway, nothing in the engine server or on its way is about the order. -/
structure Unheard (postcard : ServerPostcard) (id : OrderId) (lost : Option (List UInt8)) (d : Deployment S) : Prop where
  connection : EngineServer.Unheard postcard id d.link.connection
  sent : ∀ bytes ∈ d.link.sent, some bytes = lost ∨
    ∀ exec, postcard.toEngine.decode bytes = some (.execute exec) → answeredOrder exec.command ≠ some id
  events : ∀ m ∈ d.events, ∀ out, clientEvent m = some out → id ∉ out.ev.orders

namespace Unheard
variable {lost : Option (List UInt8)} {d : Deployment S}

theorem start (gateway : GatewayContext) (symbolId : SymbolId) {sv : Server S} (hnew : sv.engine.book.Lacks id) :
    Unheard postcard id none (.start gateway symbolId sv) where
  connection := ⟨by simp [Deployment.start,EngineLink.connect,EngineServer.Connection.accept,
    EngineServer.Connection.waiting,EngineServer.EngineThread.held],hnew,by
      simp [Deployment.start,EngineLink.connect,EngineServer.Connection.accept,EngineServer.Connection.delivered,
        EngineServer.messages],by
      simp [Deployment.start,EngineLink.connect,EngineServer.Connection.accept,EngineServer.EngineThread.unsent],by
      simp [Deployment.start,EngineLink.connect,EngineServer.Connection.accept]⟩
  sent := by simp [Deployment.start,EngineLink.connect]
  events := by simp [Deployment.start]

/-- The command of a client comes to the gateway's frames. -/
theorem frame (h : Unheard postcard id lost d) (connId : UInt64) (bytes : List UInt8) (up : Bool)
    (hout : ∀ x, (d.gateway.handleFrame connId bytes (d.routesFrame postcard connId bytes up)).2.1 = some x →
      some (commandFrame postcard x) = lost ∨ answeredOrder x.command ≠ some id) :
    Unheard postcard id lost (d.frame postcard connId bytes up).1 := by
  unfold Deployment.frame
  generalize d.gateway.handleFrame connId bytes (d.routesFrame postcard connId bytes up) = handled at hout
  obtain ⟨g,out,replies⟩ := handled
  cases out with
  | none => exact ⟨h.connection,h.sent,h.events⟩
  | some x =>
    refine ⟨h.connection,fun b hb => ?_,h.events⟩
    rcases List.mem_append.mp hb with hb | hb
    · exact h.sent b hb
    · rw [List.mem_singleton.mp hb]
      refine (hout x rfl).imp (fun he => he) fun hid exec hexec => ?_
      have hdecode := postcard.toEngine.decode_encode (.execute x)
      obtain rfl := GatewayToEngine.execute.inj (Option.some.inj (hdecode.symm.trans hexec))
      exact hid

theorem arrive (h : Unheard postcard id lost d) (hfull : ∀ bytes, d.link.sent.head? = some bytes → some bytes = lost →
    args.ingressCap ≤ d.link.connection.ingress.length) :
    Unheard postcard id lost { d with link := d.link.arrive postcard args } := by
  unfold EngineLink.arrive
  split
  case h_1 bytes rest hr hsent =>
    refine ⟨h.connection.readFrame ?_,fun b hb => h.sent b (hsent ▸ List.mem_cons_of_mem _ hb),h.events⟩
    exact (h.sent bytes (hsent ▸ List.mem_cons_self ..)).imp_left fun he => hfull bytes (by rw [hsent]; rfl) he
  case h_2 => exact h

theorem server (h : Unheard postcard id lost d) (a : EngineServer.Action) :
    Unheard postcard id lost { d with link := d.link.serverStep postcard crc32 args a } := by
  by_cases ha : ∃ bytes, a = .frame bytes
  · obtain ⟨bytes,rfl⟩ := ha
    exact h
  · have ha : ∀ bytes, a ≠ .frame bytes := fun bytes hb => ha ⟨bytes,hb⟩
    have hs : EngineServer.Stepped postcard crc32 args d.link.connection .empty _ _ :=
      EngineServer.step_cases d.link.connection .empty a
    rw [EngineLink.serverStep_eq ha]
    exact ⟨h.connection.step hs (EngineServer.Ledger.frames_step _ _ ha),h.sent,h.events⟩

theorem readEvent (h : Unheard postcard id lost d) : Unheard postcard id lost (d.readEvent postcard) := by
  unfold Deployment.readEvent EngineLink.readEvent
  split
  case h_1 bytes hreading hframe =>
    split_ifs with hlong
    · exact ⟨h.connection,h.sent,fun m hm => h.events m (by simpa using hm)⟩
    · refine ⟨h.connection,h.sent,fun m hm out hout => ?_⟩
      rcases List.mem_append.mp hm with hm | hm
      · exact h.events m hm out hout
      · have hmem : m ∈ EngineServer.messages postcard d.link.connection.fed :=
          List.mem_filterMap.mpr ⟨bytes,List.mem_of_getElem? hframe,Option.mem_toList.mp hm⟩
        exact h.connection.delivered out (List.mem_filterMap.mpr ⟨m,hmem,hout⟩)
  case h_2 => exact ⟨h.connection,h.sent,fun m hm => h.events m (by simpa using hm)⟩

end Unheard

/-- A step of anybody leaves the order alone: its entry stays, and no client hears of it. -/
theorem Unheard.step {lost : Option (List UInt8)} {d : Deployment S} (h : Unheard postcard id lost d) {a : Action}
    (hleaves : LeavesOrder id d a) (hfull : a = .arrive → ∀ bytes, d.link.sent.head? = some bytes → some bytes = lost →
      args.ingressCap ≤ d.link.connection.ingress.length) :
    Unheard postcard id lost (d.step postcard crc32 args a).1 ∧
      (d.step postcard crc32 args a).1.gateway.pendingOrders[id]? = d.gateway.pendingOrders[id]? ∧
      ∀ y ∈ (d.step postcard crc32 args a).2, id ∉ y.2.orders := by
  cases a with
  | connect decodeCommand => exact ⟨⟨h.connection,h.sent,h.events⟩,rfl,by simp [Deployment.step]⟩
  | disconnect connId => exact ⟨⟨h.connection,h.sent,h.events⟩,rfl,by simp [Deployment.step]⟩
  | arrive => exact ⟨h.arrive (hfull rfl),rfl,by simp [Deployment.step]⟩
  | server a => exact ⟨h.server a,rfl,by simp [Deployment.step]⟩
  | readEvent => exact ⟨h.readEvent,rfl,by simp [Deployment.step]⟩
  | frame connId bytes up =>
    cases hcmd : d.gateway.decoded connId bytes with
    | none =>
      have hsame := GatewayContext.handleFrame_none hcmd (d.routesFrame postcard connId bytes up)
      refine ⟨h.frame connId bytes up fun x hx => ?_,?_,?_⟩
      · rw [hsame] at hx
        cases hx
      · rw [Deployment.step,Deployment.frame,hsame]
      · rw [Deployment.step,Deployment.frame,hsame]
        simp
    | some cmd =>
      have hhandled := GatewayContext.handleFrame_some hcmd (d.routesFrame postcard connId bytes up)
      have hother : answeredOrder cmd ≠ some id := by
        rw [LeavesOrder,hcmd] at hleaves
        exact hleaves
      have hid : commandOrderId cmd ≠ some id := fun he => hother (System.answeredOrder_of_order he)
      refine ⟨h.frame connId bytes up fun x hx => ?_,?_,fun y hy hy' => ?_⟩
      · rw [hhandled] at hx
        obtain ⟨rfl,-⟩ := GatewayContext.handleCommand_out hx
        exact .inr hother
      · rw [Deployment.step,Deployment.frame,hhandled]
        exact (d.gateway.handleCommand_confined connId cmd _).others id hid
      · rw [Deployment.step,Deployment.frame,hhandled] at hy
        obtain ⟨ev,hev,rfl⟩ := List.mem_map.mp hy
        exact hid (d.gateway.handleCommand_replies connId cmd _ ev hev id hy')
  | handleResponse =>
    rw [Deployment.step]
    unfold handleResponse
    split
    case h_1 => exact ⟨h,rfl,by simp⟩
    case h_2 connId event token rest hevents =>
      have hunnamed := h.events _ (hevents ▸ List.mem_cons_self ..) ⟨connId,event⟩ rfl
      obtain ⟨hkeeps,hsame⟩ := d.gateway.handleEngineEvent_unnamed connId event hunnamed
      refine ⟨⟨h.connection,h.sent,fun m hm => h.events m (hevents ▸ List.mem_cons_of_mem _ hm)⟩,hkeeps,fun y hy => ?_⟩
      rw [hsame y hy]
      exact hunnamed
    case h_3 m rest _ hevents =>
      exact ⟨⟨h.connection,h.sent,fun m hm => h.events m (hevents ▸ List.mem_cons_of_mem _ hm)⟩,rfl,by simp⟩

theorem Unheard.before {d : Deployment S} (h : Unheard postcard id none d) {as : List Action}
    (has : (machine postcard crc32 args).Obeys (LeavesOrder id) d as) :
    Unheard postcard id none ((machine postcard crc32 args).run d as).1 := by
  induction as generalizing d with
  | nil => exact h
  | cons a as ih => exact ih (h.step has.1 (by simp)).1 has.2

theorem Unheard.after {d : Deployment S} {frame : List UInt8} (h : Unheard postcard id (some frame) d) {as : List Action}
    (has : (machine postcard crc32 args).Obeys (fun d a => LeavesOrder id d a ∧ FindsFull args frame d a) d as) :
    Unheard postcard id (some frame) ((machine postcard crc32 args).run d as).1 ∧
      ((machine postcard crc32 args).run d as).1.gateway.pendingOrders[id]? = d.gateway.pendingOrders[id]? ∧
      ∀ y ∈ ((machine postcard crc32 args).run d as).2, id ∉ y.2.orders := by
  induction as generalizing d with
  | nil => exact ⟨h,rfl,by simp [Machine.run]⟩
  | cons a as ih =>
    have hfull : a = .arrive → ∀ bytes, d.link.sent.head? = some bytes → some bytes = some frame →
        args.ingressCap ≤ d.link.connection.ingress.length := by
      rintro rfl bytes hhead he
      exact has.1.2 (hhead.trans he)
    obtain ⟨hstep,hkeeps,hquiet⟩ : Unheard postcard id (some frame) (d.step postcard crc32 args a).1 ∧ _ ∧ _ :=
      h.step has.1.1 hfull
    obtain ⟨hrest,hstill,hlater⟩ := ih hstep has.2
    refine ⟨hrest,hstill.trans hkeeps,fun y hy => ?_⟩
    rcases List.mem_append.mp hy with hy | hy
    · exact hquiet y hy
    · exact hlater y hy

/-- The first account's order 7 fills the queue. -/
def twoOrders : List Action :=
  [.connect fun bytes => (BinaryCodec.decodeCommand bytes).toOption,
    .frame 1 (BinaryCodec.encodeCommand (.authenticate ⟨"test-key-1"⟩)) true,
    .frame 1 (BinaryCodec.encodeCommand (.newOrder ⟨1,7,1,1,.buy,100,5,.gtc,⟨false⟩⟩)) true,.arrive,.server .count]

def secondOrder : ExecuteCommand := ⟨.newOrder ⟨2,8,1,1,.buy,90,4,.gtc,⟨false⟩⟩,1,⟨1,360,2⟩⟩

end Deployment
end HighPerfTrading
