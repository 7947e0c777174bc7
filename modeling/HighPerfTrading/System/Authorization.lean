import HighPerfTrading.Engine.BookInvariant
import HighPerfTrading.Engine.Confined
import HighPerfTrading.Gateway.Confined
import HighPerfTrading.System.Answers

/-! What one account's commands do to another's reservation, entries, limits and resting orders, while clients
act for the account of their session and no two accounts use one order id at the same time. -/
namespace HighPerfTrading
open Gateway Gateway.GatewayContext OrderBook

/-- What the gateway keeps of an account is the same. -/
structure GatewayLeaves (g g' : GatewayContext) (b : AccountId) : Prop where
  account : g'.accountManager.accounts[b]? = g.accountManager.accounts[b]?
  entries : ∀ (id : OrderId) (md : OrderMetadata), md.reservationToken.accountId = b →
    (g'.pendingOrders[id]? = some md ↔ g.pendingOrders[id]? = some md)

theorem GatewayLeaves.of_same {g g' : GatewayContext}
    (ha : ∀ a : AccountId, g'.accountManager.accounts[a]? = g.accountManager.accounts[a]?)
    (hp : g'.pendingOrders = g.pendingOrders) (b : AccountId) : GatewayLeaves g g' b where
  account := ha b
  entries id md _ := by rw [hp]

/-- A command for account `a` and for an order that no other account uses. -/
theorem leaves_of_confined {g g' : GatewayContext} {cmd : Command} {a b : AccountId} (h : GatewayContext.Confined g g' cmd)
    (hacct : commandAccountId cmd = some a) (hne : a ≠ b)
    (hids : ∀ (id : OrderId) (md : OrderMetadata), commandOrderId cmd = some id → g.pendingOrders[id]? = some md →
      md.reservationToken.accountId = a) : GatewayLeaves g g' b := by
  have hother : commandAccountId cmd ≠ some b := fun heq => hne (Option.some.inj (hacct.symm.trans heq))
  refine ⟨h.accounts b hother,fun id md hb => ?_⟩
  by_cases hid : commandOrderId cmd = some id
  · constructor
    · intro hmd
      rcases h.tokens id md hmd with hown | ⟨md₀,hmd₀,htoken⟩
      · rw [hb] at hown
        exact absurd hown hother
      · exact absurd ((hids id md₀ hid hmd₀).symm.trans (by rw [htoken,hb])) hne
    · intro hmd
      exact absurd ((hids id md hid hmd).symm.trans hb) hne
  · rw [h.others id hid]

/-- What the gateway does to the account of a fill's maker: the entry of the maker goes, and its token settles
the fill. The other entries stay, and so do the limits. -/
structure MakerSettled (g g' : GatewayContext) (f : Fill) (b : AccountId) : Prop where
  owner : ∀ md, g.pendingOrders[f.makerOrderId]? = some md → md.reservationToken.accountId = b
  gone : g'.pendingOrders[f.makerOrderId]? = none
  entries : ∀ (id : OrderId) (md : OrderMetadata), id ≠ f.makerOrderId → md.reservationToken.accountId = b →
    (g'.pendingOrders[id]? = some md ↔ g.pendingOrders[id]? = some md)
  account : g'.accountManager.accounts[b]? = ((g.pendingOrders[f.makerOrderId]?).elim g.accountManager fun md =>
    g.accountManager.applyFill f md.reservationToken (decide (md.side = .buy))).accounts[b]?
  limits : (g'.accountManager.accounts[b]?).map Gateway.AccountState.riskLimits =
    (g.accountManager.accounts[b]?).map Gateway.AccountState.riskLimits

/-- The limits of an account are the same, and so are its resting orders, but for those that a fill names:
these lose the quantity of the fill, and go when that is all they have. -/
structure EngineLeaves {S : Type} [Slab S Order] (e e' : Engine S) (evs : List Event) (b : AccountId) : Prop where
  limits : e'.accountManager.getLimits b = e.accountManager.getLimits b
  stays : ∀ k o, liveAt e.book.orders k = some o → o.accountId = b →
    liveAt e'.book.orders k = some o ∨ ∃ f, .fill f ∈ evs ∧ Engine.LeavesOf f o (liveAt e'.book.orders k)
  comes : ∀ k o', liveAt e'.book.orders k = some o' → o'.accountId = b →
    ∃ o, liveAt e.book.orders k = some o ∧ ReducedTo o o'

namespace System
variable {S : Type} [Slab S Order]

/-- An account has something to do with an order id: a tracked or a resting order, a command on its way to
the engine, or an event on its way to the gateway. -/
inductive Uses (sys : System S) (inFlight : List (Answer S)) (id : OrderId) (b : AccountId) : Prop
  | tracked (md : OrderMetadata) (hmd : sys.gateway.pendingOrders[id]? = some md) (hb : md.reservationToken.accountId = b)
  | resting (k : ℕ) (o : Order) (ho : liveAt sys.engine.book.orders k = some o) (hid : o.orderId = id)
      (hb : o.accountId = b)
  | sent (x : ExecuteCommand) (hx : x ∈ sys.toEngine) (hid : answeredOrder x.command = some id)
      (hb : commandAccountId x.command = some b)
  | answered (x : Answer S) (hx : x ∈ inFlight) (hid : answeredOrder x.command = some id)
      (hb : commandAccountId x.command = some b)
  | traded (x : Answer S) (hx : x ∈ inFlight) (f : Fill) (hf : x.event = .fill f) (hid : f.makerOrderId = id) (k : ℕ)
      (o : Order) (ho : liveAt x.engine.book.orders k = some o) (hoid : o.orderId = id) (hb : o.accountId = b)

/-- A command that is carried out names the account of its session, and an order id that no other account
uses. -/
def OwnsOrders (sys : System S) (inFlight : List (Answer S)) : Action → Prop
  | .frame connId bytes up => ∀ cmd a, sys.gateway.decoded connId bytes = some cmd → sys.gateway.sessions[connId]? = some a →
    sys.gateway.Carries connId cmd (sys.routed up cmd) →
      commandAccountId cmd = some a ∧ ∀ id b, answeredOrder cmd = some id → sys.Uses inFlight id b → b = a
  | _ => True

/-- The event is this fill, of an order of the account. -/
def TradesWith (x : Answer S) (f : Fill) (b : AccountId) : Prop :=
  x.event = .fill f ∧ ∃ k o, liveAt x.engine.book.orders k = some o ∧ o.orderId = f.makerOrderId ∧ o.accountId = b

/-- What is sent for a connection is for the account of its session, and each step that a command leads to
leaves the other accounts alone, or settles a fill of an order of theirs. -/
def Respects (sys : System S) (inFlight : List (Answer S)) : Action → Prop
  | .frame connId bytes up =>
    (∀ x, (sys.gateway.handleFrame connId bytes (sys.routes up)).2.1 = some x →
      (sys.gateway.sessions[connId]?).isSome ∧ commandAccountId x.command = sys.gateway.sessions[connId]?) ∧
    (sys.step (.frame connId bytes up)).engine = sys.engine ∧
    ∀ b, sys.gateway.sessions[connId]? ≠ some b →
      GatewayLeaves sys.gateway (sys.step (.frame connId bytes up)).gateway b
  | .engine => ∀ x rest, sys.toEngine = x::rest → (sys.step .engine).gateway = sys.gateway ∧
    ∀ b, commandAccountId x.command ≠ some b →
      EngineLeaves sys.engine (sys.step .engine).engine (sys.engine.process x.command).2 b
  | .deliver => ∀ x later, inFlight = x::later → (sys.step .deliver).engine = sys.engine ∧
    ∀ b, commandAccountId x.command ≠ some b →
      GatewayLeaves sys.gateway (sys.step .deliver).gateway b ∨
        ∃ f, TradesWith x f b ∧ MakerSettled sys.gateway (sys.step .deliver).gateway f b
  | _ => True

/-! ### The order ids of an account -/

variable {sys : System S} {inFlight : List (Answer S)} {id : OrderId} {b : AccountId}

theorem exists_account {cmd : Command} (h : answeredOrder cmd = some id) : ∃ a, commandAccountId cmd = some a := by
  cases cmd with
  | authenticate auth => cases h
  | _ => exact ⟨_,rfl⟩

theorem answeredOrder_of_order {cmd : Command} (h : commandOrderId cmd = some id) : answeredOrder cmd = some id := by
  cases cmd with
  | setRiskLimits srl => cases h
  | _ => exact h

theorem Uses.of_frame {connId : UInt64} {bytes : List UInt8} {up : Bool} {cmd : Command}
    (hcmd : sys.gateway.decoded connId bytes = some cmd) (h : (sys.frame connId bytes up).1.Uses inFlight id b) :
    sys.Uses inFlight id b ∨ (sys.gateway.Carries connId cmd (sys.routed up cmd) ∧ answeredOrder cmd = some id ∧
      commandAccountId cmd = some b) := by
  rw [frame_decoded hcmd] at h
  have hconfined := sys.gateway.handleCommand_confined connId cmd (sys.routed up cmd)
  cases h with
  | tracked md hmd hb =>
    by_cases hcarries : sys.gateway.Carries connId cmd (sys.routed up cmd)
    · by_cases hid : commandOrderId cmd = some id
      · rcases hconfined.tokens id md hmd with hown | ⟨md₀,hmd₀,htoken⟩
        · exact Or.inr ⟨hcarries,answeredOrder_of_order hid,hown.trans (congrArg some hb)⟩
        · exact Or.inl (.tracked md₀ hmd₀ (by rw [htoken,hb]))
      · exact Or.inl (.tracked md ((hconfined.others id hid).symm.trans hmd) hb)
    · have hquiet := handleCommand_quiet hcarries
      simp only [hquiet.pending] at hmd
      exact Or.inl (.tracked md hmd hb)
  | resting k o ho hid hb => exact Or.inl (.resting k o ho hid hb)
  | sent x hx hid hb =>
    rcases List.mem_append.mp hx with hx | hx
    · exact Or.inl (.sent x hx hid hb)
    · have hout := Option.mem_toList.mp hx
      obtain ⟨rfl,-,-⟩ := handleCommand_out hout
      exact Or.inr ⟨carries_of_sent hout,hid,hb⟩
  | answered x hx hid hb => exact Or.inl (.answered x hx hid hb)
  | traded x hx f hf hid k o ho hoid hb => exact Or.inl (.traded x hx f hf hid k o ho hoid hb)

/-- The engine answers commands in the name of their accounts. -/
theorem Uses.of_engine (h : (sys.step .engine).Uses (sys.inFlightAfter inFlight .engine) id b) : sys.Uses inFlight id b := by
  cases hq : sys.toEngine with
  | nil =>
    have hsys : sys.step .engine = sys := by simp only [System.step,engineStep,hq]
    have hanswers : sys.inFlightAfter inFlight .engine = inFlight := by simp [inFlightAfter,hq]
    rwa [hsys,hanswers] at h
  | cons x rest =>
    have hx : x ∈ sys.toEngine := by rw [hq]; exact List.mem_cons_self
    have hconfined := sys.engine.live_confined x.command
    simp only [System.step,engineStep,hq,inFlightAfter,List.head?_cons,Option.map_some,Option.getD_some] at h
    cases h with
    | tracked md hmd hb => exact .tracked md hmd hb
    | resting k o ho hid hb =>
      rcases hconfined.comes k o ho with ⟨o₀,ho₀,hred⟩ | ⟨hid',hb'⟩
      · exact .resting k o₀ ho₀ (hred.orderId.trans hid) (hred.accountId.trans hb)
      · exact .sent x hx (hid'.trans (congrArg some hid)) (hb'.trans (congrArg some hb))
    | sent y hy hid hb => exact .sent y (by rw [hq]; exact List.mem_cons_of_mem _ hy) hid hb
    | answered y hy hid hb =>
      rcases List.mem_append.mp hy with hy | hy
      · exact .answered y hy hid hb
      · rw [Engine.command_answers hy] at hid hb
        exact .sent x hx hid hb
    | traded y hy f hf hid k o ho hoid hb =>
      rcases List.mem_append.mp hy with hy | hy
      · exact .traded y hy f hf hid k o ho hoid hb
      · rw [Engine.engine_answers hy] at ho
        exact .resting k o ho hoid hb

/-- Uses stay with the engine and the commands on their way to it, with fewer entries and answers. -/
theorem Uses.mono {sys' : System S} {inFlight' : List (Answer S)} (h : sys'.Uses inFlight' id b)
    (hengine : sys'.engine = sys.engine) (hsent : sys'.toEngine = sys.toEngine)
    (htracked : ∀ md, sys'.gateway.pendingOrders[id]? = some md → sys.gateway.pendingOrders[id]? = some md)
    (hanswers : ∀ x ∈ inFlight', x ∈ inFlight) : sys.Uses inFlight id b := by
  cases h with
  | tracked md hmd hb => exact .tracked md (htracked md hmd) hb
  | resting k o ho hid hb => exact .resting k o (hengine ▸ ho) hid hb
  | sent x hx hid hb => exact .sent x (hsent ▸ hx) hid hb
  | answered x hx hid hb => exact .answered x (hanswers x hx) hid hb
  | traded x hx f hf hid k o ho hoid hb => exact .traded x (hanswers x hx) f hf hid k o ho hoid hb

theorem Uses.of_deliver (h : (sys.step .deliver).Uses (sys.inFlightAfter inFlight .deliver) id b) :
    sys.Uses inFlight id b := by
  have htail : ∀ x ∈ sys.inFlightAfter inFlight .deliver, x ∈ inFlight := fun x hx => List.mem_of_mem_tail hx
  cases hq : sys.toGateway with
  | nil =>
    have hsys : sys.step .deliver = sys := by simp only [System.step,System.deliver,hq]
    rw [hsys] at h
    exact h.mono rfl rfl (fun _ h => h) htail
  | cons p rest =>
    rw [step_deliver hq] at h
    refine h.mono rfl rfl (fun md hmd => ?_) htail
    simp only [get_handleEngineEvent] at hmd
    split_ifs at hmd
    exact hmd

/-- Two accounts never use one order id at the same time. -/
def Separate (sys : System S) (inFlight : List (Answer S)) : Prop :=
  ∀ id a b, sys.Uses inFlight id a → sys.Uses inFlight id b → a = b

theorem Separate.of_uses (h : Separate sys inFlight) {sys' : System S} {inFlight' : List (Answer S)}
    (huses : ∀ id a, sys'.Uses inFlight' id a → sys.Uses inFlight id a) : Separate sys' inFlight' :=
  fun id a b ha hb => h id a b (huses id a ha) (huses id b hb)

theorem Separate.frame (h : Separate sys inFlight) {connId : UInt64} {bytes : List UInt8} {up : Bool}
    (hown : sys.OwnsOrders inFlight (.frame connId bytes up)) : Separate (sys.step (.frame connId bytes up)) inFlight := by
  rw [System.step]
  cases hcmd : sys.gateway.decoded connId bytes with
  | none =>
    rw [frame_skipped hcmd]
    exact h
  | some cmd =>
    have howner : ∀ id, answeredOrder cmd = some id → sys.gateway.Carries connId cmd (sys.routed up cmd) →
        ∀ c, sys.Uses inFlight id c → commandAccountId cmd = some c := by
      intro id hid hcarries c hc
      obtain ⟨a,hs⟩ := Option.isSome_iff_exists.mp hcarries.session
      obtain ⟨hacct,hids⟩ := hown cmd a hcmd hs hcarries
      rw [hacct,hids id c hid hc]
    intro id a b ha hb
    rcases Uses.of_frame hcmd ha with ha | ⟨hcarries,hid,ha⟩
    · rcases Uses.of_frame hcmd hb with hb | ⟨hcarries,hid,hb⟩
      · exact h id a b ha hb
      · exact Option.some.inj ((howner id hid hcarries a ha).symm.trans hb)
    · rcases Uses.of_frame hcmd hb with hb | ⟨-,-,hb⟩
      · exact Option.some.inj (ha.symm.trans (howner id hid hcarries b hb))
      · exact Option.some.inj (ha.symm.trans hb)

theorem Separate.step (h : Separate sys inFlight) {a : Action} (hown : sys.OwnsOrders inFlight a) :
    Separate (sys.step a) (sys.inFlightAfter inFlight a) := by
  cases a with
  | connect decodeCommand => exact h.of_uses fun _ _ huses => huses.mono rfl rfl (fun _ h => h) fun _ h => h
  | disconnect connId => exact h.of_uses fun _ _ huses => huses.mono rfl rfl (fun _ h => h) fun _ h => h
  | frame connId bytes up => exact h.frame hown
  | engine => exact h.of_uses fun _ _ => Uses.of_engine
  | deliver => exact h.of_uses fun _ _ => Uses.of_deliver

variable {funding : List (AccountId × Int64)} {apiKeys : OrdMap String AccountId}

theorem Answered.separate (h : Answered funding apiKeys OwnsOrders sys inFlight) : Separate sys inFlight := by
  refine h.keeps (fun id a b ha => ?_) fun _ hseparate ha => hseparate.step ha
  cases ha with
  | tracked md hmd hb => simp [System.start] at hmd
  | resting k o ho hid hb => simp [System.start,Engine.new,OrderBook.new,liveAt] at ho
  | sent x hx hid hb => cases hx
  | answered x hx hid hb => cases hx
  | traded x hx f hf hid k o ho hoid hb => cases hx

/-! ### What a step leaves alone -/

theorem frame_respects {connId : UInt64} {bytes : List UInt8} {up : Bool}
    (hown : sys.OwnsOrders inFlight (.frame connId bytes up)) : sys.Respects inFlight (.frame connId bytes up) := by
  refine ⟨fun x hx => ?_,rfl,fun b hb => ?_⟩
  · cases hcmd : sys.gateway.decoded connId bytes with
    | none =>
      rw [handleFrame_none hcmd] at hx
      cases hx
    | some cmd =>
      rw [handleFrame_some hcmd] at hx
      have hout : (sys.gateway.handleCommand connId cmd (sys.routed up cmd)).2.1 = some x := hx
      have hcarries := carries_of_sent hout
      obtain ⟨rfl,-,hs⟩ := handleCommand_out hout
      obtain ⟨a,ha⟩ := Option.isSome_iff_exists.mp hs
      rw [ha]
      exact ⟨rfl,(hown x.command a hcmd ha hcarries).1⟩
  · rw [System.step]
    cases hcmd : sys.gateway.decoded connId bytes with
    | none =>
      rw [frame_skipped hcmd]
      exact .of_same (fun _ => rfl) rfl b
    | some cmd =>
      rw [frame_decoded hcmd]
      by_cases hcarries : sys.gateway.Carries connId cmd (sys.routed up cmd)
      · obtain ⟨a,ha⟩ := Option.isSome_iff_exists.mp hcarries.session
        obtain ⟨hacct,hids⟩ := hown cmd a hcmd ha hcarries
        refine leaves_of_confined (sys.gateway.handleCommand_confined connId cmd _) hacct ?_ fun id md hid hmd => ?_
        · rintro rfl
          exact hb ha
        · exact hids id _ (answeredOrder_of_order hid) (.tracked md hmd rfl)
      · have hquiet := handleCommand_quiet hcarries
        exact .of_same hquiet.accounts hquiet.pending b

theorem engine_respects (sys : System S) (inFlight : List (Answer S)) : sys.Respects inFlight .engine := by
  intro x rest hq
  have hconfined := sys.engine.live_confined x.command
  have hengine : (sys.step .engine).engine = sys.engine.live x.command := by simp only [System.step,engineStep,hq]
  have hgateway : (sys.step .engine).gateway = sys.gateway := by simp only [System.step,engineStep,hq]
  rw [hengine]
  refine ⟨hgateway,fun b hb => ⟨hconfined.limits b hb,fun k o ho hob => hconfined.stays k o ho (hob ▸ hb),
    fun k o' ho' hob => ?_⟩⟩
  rcases hconfined.comes k o' ho' with ⟨o,ho,hred⟩ | ⟨-,hacct⟩
  · exact ⟨o,ho,hred⟩
  · rw [hob] at hacct
    exact absurd hacct hb

section Deliver
variable {x : Answer S} (h : Separate sys inFlight) (hx : x ∈ inFlight)
include h hx

/-- The order that is answered belongs to the account that is answered. -/
theorem Separate.answered_owner {md : OrderMetadata} (hid : answeredOrder x.command = some id)
    (hmd : sys.gateway.pendingOrders[id]? = some md) : commandAccountId x.command = some md.reservationToken.accountId := by
  obtain ⟨a,ha⟩ := exists_account hid
  rw [ha,h id a _ (.answered x hx hid ha) (.tracked md hmd rfl)]

/-- The maker of a fill belongs to the account of the order that was filled. -/
theorem Separate.maker_owner {f : Fill} {md : OrderMetadata} (htrade : TradesWith x f b)
    (hmd : sys.gateway.pendingOrders[f.makerOrderId]? = some md) : md.reservationToken.accountId = b := by
  obtain ⟨hevent,k,o,ho,hmaker,hb⟩ := htrade
  exact h f.makerOrderId _ b (.tracked md hmd rfl) (.traded x hx f hevent rfl k o ho hmaker hb)

/-- An order that an event drops belongs to the account that is answered, or is the maker of a fill. -/
theorem Separate.dropped {md : OrderMetadata} (hdrops : sys.gateway.drops x.event id = true)
    (hmd : sys.gateway.pendingOrders[id]? = some md) :
    commandAccountId x.command = some md.reservationToken.accountId ∨
      ∃ f, TradesWith x f md.reservationToken.accountId := by
  have hconfined := x.engine.process_confined x.command
  have hem := x.emitted
  cases hevent : x.event with
  | fill f =>
    rw [hevent] at hem hdrops
    obtain ⟨htaker,k,o,ho,hmaker⟩ := hconfined.fills f hem
    simp only [drops,decide_eq_true_eq] at hdrops
    rcases hdrops with rfl | rfl
    · have hsame := h.maker_owner hx ⟨hevent,k,o,ho,hmaker,rfl⟩ hmd
      exact Or.inr ⟨f,hevent,k,o,ho,hmaker,hsame.symm⟩
    · exact Or.inl (h.answered_owner hx htaker hmd)
  | ack a =>
    rw [hevent] at hem hdrops
    simp only [drops,decide_eq_true_eq] at hdrops
    exact Or.inl (h.answered_owner hx ((hconfined.acks a hem).trans (congrArg some hdrops.1.symm)) hmd)
  | reject r =>
    rw [hevent] at hem hdrops
    simp only [drops,decide_eq_true_eq] at hdrops
    exact Or.inl (h.answered_owner hx ((hconfined.rejects r hem).trans hdrops) hmd)
  | _ =>
    rw [hevent] at hdrops
    simp [drops] at hdrops

/-- Handling a fill settles its maker's account with the token of the maker, and leaves the rest of it. -/
theorem Separate.maker_settled {f : Fill} (hb : commandAccountId x.command ≠ some b) (htrade : TradesWith x f b)
    (connId : UInt64) : MakerSettled sys.gateway (sys.gateway.handleEngineEvent connId (.fill f)).1 f b := by
  have hem := x.emitted
  rw [htrade.1] at hem
  obtain ⟨htaker,-⟩ := (x.engine.process_confined x.command).fills f hem
  have htakes : ∀ md, sys.gateway.pendingOrders[f.takerOrderId]? = some md → md.reservationToken.accountId ≠ b := by
    rintro md hmd rfl
    exact hb (h.answered_owner hx htaker hmd)
  have hmaker : ∀ md, sys.gateway.pendingOrders[f.makerOrderId]? = some md → md.reservationToken.accountId = b :=
    fun md hmd => h.maker_owner hx htrade hmd
  have haccount : (sys.gateway.handleEngineEvent connId (.fill f)).1.accountManager.accounts[b]? =
      ((sys.gateway.pendingOrders[f.makerOrderId]?).elim sys.gateway.accountManager fun md =>
        sys.gateway.accountManager.applyFill f md.reservationToken (decide (md.side = .buy))).accounts[b]? := by
    simp only [handleEngineEvent,handleFill]
    rw [accounts_settleFill _ f _ htakes]
    unfold settleFill
    cases sys.gateway.pendingOrders[f.makerOrderId]? <;> rfl
  refine ⟨hmaker,?_,fun id md hid hmdb => ?_,haccount,?_⟩
  · rw [get_handleEngineEvent,if_pos]
    simp [drops]
  · rw [get_handleEngineEvent]
    split_ifs with hdrops
    · have htakerId : id = f.takerOrderId := by simpa [drops,hid] using hdrops
      subst htakerId
      constructor
      · intro hnone; cases hnone
      · intro hmd; exact absurd hmdb (htakes md hmd)
    · rfl
  · rw [haccount]
    cases sys.gateway.pendingOrders[f.makerOrderId]? with
    | none => rfl
    | some md =>
      rw [Option.elim_some,Gateway.AccountManager.accounts_applyFill,Option.map_map]
      refine congrArg (Option.map · _) (funext fun s => ?_)
      rw [Function.comp_apply]
      split_ifs <;> rfl

end Deliver

theorem Separate.deliver_respects (h : Separate sys inFlight)
    (hev : inFlight.map Answer.event = sys.toGateway.map Prod.snd) :
    sys.Respects inFlight .deliver := by
  intro x later hq
  have hx : x ∈ inFlight := by rw [hq]; exact List.mem_cons_self
  rw [hq,List.map_cons] at hev
  cases hto : sys.toGateway with
  | nil => rw [hto] at hev; cases hev
  | cons p rest =>
    obtain ⟨connId,event⟩ := p
    rw [hto,List.map_cons] at hev
    obtain rfl : x.event = event := (List.cons.inj hev).1
    rw [step_deliver hto]
    refine ⟨rfl,fun b hb => ?_⟩
    by_cases htrade : ∃ f, TradesWith x f b
    · obtain ⟨f,hf⟩ := htrade
      have hsettled := h.maker_settled hx hb hf connId
      rw [← hf.1] at hsettled
      exact Or.inr ⟨f,hf,hsettled⟩
    have hspared : ∀ (id : OrderId) (md : OrderMetadata), sys.gateway.drops x.event id = true →
        sys.gateway.pendingOrders[id]? = some md → md.reservationToken.accountId ≠ b := by
      rintro id md hdrops hmd rfl
      rcases h.dropped hx hdrops hmd with hacct | hother
      · exact hb hacct
      · exact htrade hother
    refine Or.inl ⟨accounts_event _ _ hspared,fun id md hmdb => ?_⟩
    simp only [get_handleEngineEvent]
    split_ifs with hdrops
    · constructor
      · intro hnone; cases hnone
      · intro hmd; exact absurd hmdb (hspared id md hdrops hmd)
    · rfl

/-- While every command that is carried out is for the account of its session, and for an order id that no
other account uses, each step respects the other accounts. -/
theorem Answered.respects (h : Answered funding apiKeys OwnsOrders sys inFlight) {a : Action}
    (hown : sys.OwnsOrders inFlight a) : sys.Respects inFlight a := by
  cases a with
  | connect decodeCommand => trivial
  | disconnect connId => trivial
  | frame connId bytes up => exact frame_respects hown
  | engine => exact engine_respects sys inFlight
  | deliver => exact h.separate.deliver_respects h.events

/-! ### Two accounts -/

/-- Nothing in the system names the order id. -/
def Unused (sys : System S) (inFlight : List (Answer S)) (id : OrderId) : Prop :=
  sys.gateway.pendingOrders[id]? = none ∧ (∀ o ∈ sys.engine.book.liveOrders, o.orderId ≠ id) ∧
    (∀ x ∈ sys.toEngine, answeredOrder x.command ≠ some id) ∧ inFlight = []

theorem Unused.no_uses (h : sys.Unused inFlight id) (b : AccountId) : ¬ sys.Uses inFlight id b := by
  obtain ⟨hpending,hlive,hsent,rfl⟩ := h
  intro huses
  cases huses with
  | tracked md hmd hb => rw [hpending] at hmd; cases hmd
  | resting k o ho hid hb => exact hlive o (mem_liveOrders.mpr ⟨k,ho⟩) hid
  | sent x hx hid hb => exact hsent x hx hid
  | answered x hx hid hb => cases hx
  | traded x hx f hf hid k o ho hoid hb => cases hx

theorem OwnsOrders.login {connId : UInt64} {auth : Authenticate}
    (hcmd : sys.gateway.decoded connId (BinaryCodec.encodeCommand (.authenticate auth)) = some (.authenticate auth)) :
    sys.OwnsOrders inFlight (.send connId (.authenticate auth)) := by
  intro cmd a hcmd' _ hcarries
  obtain rfl := Option.some.inj (hcmd.symm.trans hcmd')
  rcases hcarries with ⟨-,hnever⟩ | ⟨-,-,srl,hsrl⟩
  · exact hnever.elim
  · cases hsrl

theorem OwnsOrders.unused {connId : UInt64} {cmd : Command} (a : AccountId) (id : OrderId)
    (hcmd : sys.gateway.decoded connId (BinaryCodec.encodeCommand cmd) = some cmd)
    (hs : sys.gateway.sessions[connId]? = some a) (hacct : commandAccountId cmd = some a) (hid : answeredOrder cmd = some id) (hunused : sys.Unused inFlight id) :
    sys.OwnsOrders inFlight (.send connId cmd) := by
  intro cmd' a' hcmd' hs' _
  obtain rfl := Option.some.inj (hcmd.symm.trans hcmd')
  obtain rfl := Option.some.inj (hs.symm.trans hs')
  refine ⟨hacct,fun i b hi huses => ?_⟩
  obtain rfl := Option.some.inj (hid.symm.trans hi)
  exact absurd huses (hunused.no_uses b)

/-- A buy of account 1 rests, and its events have been delivered. -/
def firstOrder : List Action := logins ++
  [.send 1 (.newOrder ⟨1,1,1,1,.buy,100,10,.gtc,⟨false⟩⟩),.engine,.deliver,.deliver]

/-- Account 2 sends an order of its own. -/
def secondOrder : Command := .newOrder ⟨1,2,2,1,.sell,100,4,.gtc,⟨false⟩⟩

theorem secondOrder_respects :
    let p := (System.start twoAccounts twoKeys : System (FreeListSlab Order)).follow [] firstOrder
    p.1.Respects p.2 (.send 2 secondOrder) ∧ GatewayLeaves p.1.gateway (p.1.step (.send 2 secondOrder)).gateway 1 := by
  have hrun : AllAllowed OwnsOrders (System.start twoAccounts twoKeys : System (FreeListSlab Order)) [] firstOrder := by
    refine ⟨trivial,trivial,.login ?_,.login ?_,.unused 1 1 ?_ ?_ ?_ ?_ ⟨?_,?_,?_,?_⟩,trivial,trivial,trivial,trivial⟩ <;>
    decide +kernel
  have hown : OwnsOrders ((System.start twoAccounts twoKeys : System (FreeListSlab Order)).follow [] firstOrder).1
      ((System.start twoAccounts twoKeys : System (FreeListSlab Order)).follow [] firstOrder).2 (.send 2 secondOrder) := by
    refine .unused 2 2 ?_ ?_ ?_ ?_ ⟨?_,?_,?_,?_⟩ <;> decide +kernel
  have hrespects := (Answered.start.follow firstOrder hrun).respects hown
  exact ⟨hrespects,hrespects.2.2 1 (by decide +kernel)⟩

/-- Account 2 cancels the order of account 1 in its name. -/
def foreignCancel : Command := .cancel ⟨1,1,1,1⟩

/-- Account 2 cancels it in its own name. -/
def strayCancel : Command := .cancel ⟨1,1,2,1⟩

/-- The first is carried out for account 1. The second is rejected by the engine, and the rejection takes the
reservation of account 1 while its order rests. -/
theorem foreignCancel_obeyed : ∃ sys : System (FreeListSlab Order),
    Answered twoAccounts twoKeys (fun _ _ _ => True) sys [] ∧ sys.gateway.sessions[(2 : UInt64)]? = some 2 ∧
      (sys.engine.book.get 1).map Order.accountId = some 1 ∧
      (sys.gateway.pendingOrders[(1 : OrderId)]?).map (fun md => md.reservationToken.accountId) = some 1 ∧
      sys.gateway.accountManager.getTentativeReserved 1 = 1000 ∧
      ((sys.step (.send 2 foreignCancel)).toEngine.map fun x => (x.connId,commandAccountId x.command)) = [(2,some 1)] ∧
      ((sys.step (.send 2 foreignCancel)).step .engine).engine.book.get 1 = none ∧
      ((((sys.step (.send 2 strayCancel)).step .engine).step .deliver).gateway.accountManager.getTentativeReserved 1 = 0) ∧
      (((sys.step (.send 2 strayCancel)).step .engine).step .deliver).gateway.pendingOrders[(1 : OrderId)]? = none ∧
      (((sys.step (.send 2 strayCancel)).step .engine).engine.book.get 1).isSome := by
  have hrun : Answered twoAccounts twoKeys (fun _ _ _ => True)
      ((System.start twoAccounts twoKeys : System (FreeListSlab Order)).follow [] firstOrder).1
      ((System.start twoAccounts twoKeys : System (FreeListSlab Order)).follow [] firstOrder).2 :=
    Answered.start.follow firstOrder (by decide +kernel)
  have hdone : ((System.start twoAccounts twoKeys : System (FreeListSlab Order)).follow [] firstOrder).2 = [] :=
    List.length_eq_zero_iff.mp (by decide +kernel)
  rw [hdone] at hrun
  refine ⟨_,hrun,?_,?_,?_,?_,?_,?_,?_,?_,?_⟩ <;> decide +kernel

end System
end HighPerfTrading
