import HighPerfTrading.Gateway.TaskTokens

/-! Tasks that keep apart: as long as no two of them work on the same order, each order has one token at most, and
each token is used up once. -/
namespace HighPerfTrading
namespace Gateway
open GatewayContext TokenLedger
namespace Tasks
variable {t : Tasks} {owned : Tokens} {connId : UInt64}

/-! ### Read loops -/

theorem tokenOf_withOperation (pending : OrdMap OrderId OrderMetadata) (id i : OrderId) (op : PendingOperation) :
    tokenOf (withOperation pending id op)[i]? = tokenOf pending[i]? := by
  rw [get_withOperation,tokenOf,Option.map_map]
  refine congrArg (Option.map · _) (funext fun md => ?_)
  by_cases hi : i = id
  · simp [hi]
  · simp [hi]

theorem localOrder_updateLocal_ne (g : GatewayContext) {c : UInt64} (hc : c ≠ connId)
    (f : OrdMap OrderId (ReservationToken × Bool × PendingOperation) →
      OrdMap OrderId (ReservationToken × Bool × PendingOperation)) (id : OrderId) :
    (g.updateLocal connId f).localOrder c id = g.localOrder c id := by
  rw [localOrder_updateLocal,if_neg hc]

theorem localOrder_setOperation_ne (g : GatewayContext) {c : UInt64} (hc : c ≠ connId) (orderId id : OrderId)
    (op : PendingOperation) : (g.setOperation connId orderId op).localOrder c id = g.localOrder c id := by
  cases hl : g.localOrder connId orderId with
  | none => exact localOrder_untouched op hl
  | some x => rw [localOrder_touched op hl,localOrder_updateLocal_ne g hc]

/-- What is asked of a command that a read loop starts on. Its order is not in the hands of another task, and a new
order is not tracked yet. A replacement comes from the connection of its order, for the account of its token. -/
def Starts (t : Tasks) (connId : UInt64) : Command → Prop
  | .newOrder order => Reservable (.newOrder order) ∧ t.Free order.orderId ∧
      t.gateway.pendingOrders[order.orderId]? = none
  | .replace replace => Priced replace.newPrice replace.newQty ∧ t.Free replace.orderId ∧
      ∀ md, t.gateway.pendingOrders[replace.orderId]? = some md →
        (t.gateway.localOrder connId replace.orderId).isSome ∧ md.reservationToken.accountId = replace.accountId
  | _ => True

namespace Owned

theorem free_token (h : Owned t owned) {id : OrderId} (hfree : t.Free id) :
    owned[id]? = tokenOf t.gateway.pendingOrders[id]? :=
  h.custody.clean id hfree

theorem starts_replace (h : Owned t owned) (hloop : (t.loop connId).order = none) {r : Replace}
    (hs : t.Starts connId (.replace r)) {md : OrderMetadata} (hmd : t.gateway.pendingOrders[r.orderId]? = some md) :
    Owned (t.goes connId (.found r md.reservationToken) t.gateway) owned := by
  obtain ⟨hpriced,hfree,hown⟩ := hs
  obtain ⟨hlocal,hacct⟩ := hown md hmd
  have htoken := h.free_token hfree
  rw [hmd] at htoken
  refine h.goes h.backed (fun id hid => ?_) (fun id _ _ => rfl) ⟨?_,hacct,hpriced⟩ (fun id hid _ => ?_)
    (fun _ _ _ => rfl) fun id hid => ?_
  · exact .inr (Option.some.inj hid ▸ hfree)
  · exact Prod.ext htoken (by rw [view,hmd]; rfl)
  · rw [hloop] at hid
    cases hid
  · exact Option.some.inj hid ▸ hlocal

theorem starts_order (h : Owned t owned) (hloop : (t.loop connId).order = none) {order : NewOrder}
    (hs : t.Starts connId (.newOrder order)) {token : ReservationToken} {am : AccountManager}
    (hok : t.gateway.accountManager.checkAndReserve (.newOrder order) = .ok (token,am))
    (f : OrdMap OrderId (ReservationToken × Bool × PendingOperation) →
      OrdMap OrderId (ReservationToken × Bool × PendingOperation)) :
    Owned (t.goes connId (.reserved order token)
      (({ t.gateway with accountManager := am } : GatewayContext).updateLocal connId f))
      (owned.insert order.orderId token) := by
  obtain ⟨hpriced,hfree,hnone⟩ := hs
  have hnew := h.free_token hfree
  rw [hnone] at hnew
  refine h.goes ?_ (fun id hid => ?_) (fun id _ hid => ?_) ?_ (fun id hid _ => ?_) (fun c id hc => ?_) fun id hid => ?_
  · rw [accountManager_updateLocal]
    exact Tokens.insert_backed (Sound.checkAndReserve h.backed hpriced hok) hnew
  · exact .inr (Option.some.inj hid ▸ hfree)
  · rw [view,pendingOrders_updateLocal,OrdMap.get_insert,if_neg fun heq => hid (congrArg some heq)]
    rfl
  · refine Prod.ext ?_ ?_
    · exact (OrdMap.get_insert ..).trans (if_pos rfl)
    · rw [view,pendingOrders_updateLocal,hnone]
      rfl
  · rw [hloop] at hid
    cases hid
  · exact localOrder_updateLocal_ne _ hc f id
  · cases hid

theorem begin (h : Owned t owned) (hidle : t.loop connId = .idle) {cmd : Command} (hs : t.Starts connId cmd) :
    ∃ owned', Owned (t.begin connId cmd).1 owned' := by
  have hloop : (t.loop connId).order = none := by rw [hidle]; rfl
  have hreply {r : Handled} (ha : r.1.accountManager.accounts = t.gateway.accountManager.accounts)
      (hp : r.1.pendingOrders = t.gateway.pendingOrders) (hc : r.1.clients = t.gateway.clients) :
      ∃ owned', Owned (t.replies connId r).1 owned' := ⟨owned,h.replies hloop ha hp hc⟩
  cases cmd with
  | queryAccount query =>
    simp only [Tasks.begin,handleQueryAccount]
    split <;> exact hreply rfl rfl rfl
  | authenticate auth =>
    simp only [Tasks.begin,handleAuthenticate]
    split <;> exact hreply rfl rfl rfl
  | cancel c =>
    simp only [Tasks.begin]
    split_ifs
    · exact hreply rfl rfl rfl
    · refine ⟨owned,h.quiet hloop (by simp) (fun id => ?_) rfl rfl (fun _ => trivial) fun c' id hc => ?_⟩
      · rw [pendingOrders_setOperation,tokenOf_withOperation]
      · exact localOrder_setOperation_ne _ hc _ _ _
  | replace r =>
    simp only [Tasks.begin]
    split_ifs
    · exact hreply rfl rfl rfl
    · cases hmd : t.gateway.pendingOrders[r.orderId]? with
      | none => exact hreply rfl rfl rfl
      | some md => exact ⟨owned,h.starts_replace hloop hs hmd⟩
  | newOrder order =>
    simp only [Tasks.begin,Tasks.reserve]
    split_ifs
    · exact hreply rfl rfl rfl
    · cases hok : t.gateway.accountManager.checkAndReserve (.newOrder order) with
      | error violation => exact hreply rfl rfl rfl
      | ok p => exact ⟨_,h.starts_order hloop hs hok _⟩
  | setRiskLimits srl =>
    simp only [Tasks.begin,Tasks.reserve,AccountManager.checkAndReserve]
    split_ifs
    · exact hreply rfl rfl rfl
    · exact ⟨owned,h.quiet hloop rfl (fun _ => rfl) rfl rfl (fun _ => trivial) fun _ _ _ => rfl⟩

/-- A read loop leaves the order that it has worked on. -/
theorem leaves (h : Owned t owned) {id : OrderId} (hloop : (t.loop connId).order = some id) {l : ReadLoop}
    {g : GatewayContext} (haccounts : g.accountManager.accounts = t.gateway.accountManager.accounts)
    (horder : l.order = none) (hreplaced : l.replaced = none) (hholds : ∀ v, l.Holds v)
    (hframe : ∀ i, i ≠ id → tokenOf g.pendingOrders[i]? = tokenOf t.gateway.pendingOrders[i]?)
    (htoken : owned[id]? = tokenOf g.pendingOrders[id]?)
    (hothers : ∀ c i, c ≠ connId → g.localOrder c i = t.gateway.localOrder c i) : Owned (t.goes connId l g) owned := by
  refine h.goes (Tokens.backed_congr h.backed haccounts) (fun i hi => ?_) (fun i hi _ => ?_) (hholds _)
    (fun i hi _ => ?_) hothers fun i hi => ?_
  · rw [horder] at hi
    cases hi
  · have hne : i ≠ id := fun heq => hi (heq ▸ hloop)
    rw [view,hframe i hne]
    rfl
  · obtain rfl := Option.some.inj (hloop.symm.trans hi)
    exact htoken
  · rw [hreplaced] at hi
    cases hi

theorem adjust (h : Owned t owned) {r : Replace} {oldToken token : ReservationToken} {am : AccountManager}
    (hl : t.loop connId = .found r oldToken)
    (hok : t.gateway.accountManager.adjustReservation oldToken r = .ok (token,am)) :
    Owned (t.goes connId (.adjusted r token) { t.gateway with accountManager := am })
      (owned.insert r.orderId token) := by
  have hfound : (t.loop connId).Holds (view t.gateway owned) := h.custody.holds (some connId)
  rw [hl] at hfound
  obtain ⟨hview,hacct,hpriced⟩ := hfound
  have hold : owned[r.orderId]? = some oldToken := congrArg Prod.fst hview
  have horder : (t.loop connId).order = some r.orderId := by rw [hl]; rfl
  refine h.goes ?_ (fun id hid => ?_) (fun id _ hid => ?_) ?_ (fun id hid hnew => ?_) (fun _ _ _ => rfl) fun id hid => ?_
  · exact Tokens.swap_backed (Sound.adjustReservation h.backed (Tokens.mem_all hold) hacct hpriced hok) hold
  · exact .inl (horder.trans hid)
  · rw [view,OrdMap.get_insert,if_neg fun heq => hid (congrArg some heq)]
    rfl
  · exact (OrdMap.get_insert ..).trans (if_pos rfl)
  · exact absurd (horder.symm.trans hid) hnew
  · exact h.known connId id (by rw [hl]; exact hid)

theorem proceed (h : Owned t owned) {routes : SymbolId → Bool}
    (hrouted : ∀ cmd ∈ (t.loop connId).approval, ((commandSymbolId cmd).map routes).getD false) :
    ∃ owned', Owned (t.proceed connId routes).1 owned' := by
  have hholds : (t.loop connId).Holds (view t.gateway owned) := h.custody.holds (some connId)
  have hknown := h.known connId
  unfold Tasks.proceed
  cases hl : t.loop connId with
  | idle => exact ⟨owned,h⟩
  | reserved order token =>
    rw [hl] at hholds
    have hloop : (t.loop connId).order = some order.orderId := by rw [hl]; rfl
    refine ⟨owned,h.leaves hloop rfl rfl rfl (fun _ => trivial) (fun i hi => ?_) ?_ fun _ _ _ => rfl⟩
    · rw [OrdMap.get_insert,if_neg (Ne.symm hi)]
    · rw [OrdMap.get_insert,if_pos rfl]
      exact congrArg Prod.fst hholds
  | found r oldToken =>
    cases hok : t.gateway.accountManager.adjustReservation oldToken r with
    | error violation =>
      rw [hl] at hholds
      have hloop : (t.loop connId).order = some r.orderId := by rw [hl]; rfl
      have hsame : owned[r.orderId]? = tokenOf t.gateway.pendingOrders[r.orderId]? :=
        (congrArg Prod.fst hholds.1).trans (congrArg Prod.snd hholds.1).symm
      have hrest (rejected : Handled) (hr : rejected.1 = t.gateway.bumpSeq) :
          Owned (t.replies connId rejected).1 owned := by
        refine h.leaves (g := rejected.1) (l := .idle) hloop ?_ rfl rfl (fun _ => trivial) (fun i _ => ?_) ?_
          fun c i _ => ?_
        · rw [hr]; rfl
        · rw [hr]; rfl
        · rw [hr]; exact hsame
        · rw [hr]; rfl
      simp only [hok]
      exact ⟨owned,hrest _ rfl⟩
    | ok p =>
      simp only [hok]
      exact ⟨_,h.adjust hl hok⟩
  | adjusted r token =>
    rw [hl] at hholds hknown
    have hloop : (t.loop connId).order = some r.orderId := by rw [hl]; rfl
    obtain ⟨x,hx⟩ := Option.isSome_iff_exists.mp (hknown r.orderId rfl)
    simp only [hx]
    refine ⟨owned,h.leaves hloop ?_ rfl rfl (fun _ => trivial) (fun i hi => ?_) ?_ fun c i hc => ?_⟩
    · rw [track,accountManager_updateLocal]
    · rw [track,OrdMap.get_insert,if_neg (Ne.symm hi)]
    · rw [track,OrdMap.get_insert,if_pos rfl]
      exact hholds
    · exact localOrder_updateLocal_ne _ hc _ i
  | approved cmd token =>
    have hloop : (t.loop connId).order = none := by rw [hl]; rfl
    have hreached := hrouted cmd (by rw [hl]; rfl)
    simp only [hreached,if_true]
    exact ⟨owned,h.replies hloop rfl rfl rfl⟩
  | unrouted cmd token =>
    rw [hl] at hholds
    exact hholds.elim
  | cancelling c =>
    have hloop : (t.loop connId).order = none := by rw [hl]; rfl
    simp only
    split_ifs
    · exact ⟨owned,h.replies hloop rfl rfl rfl⟩
    · exact ⟨owned,h.quiet hloop rfl (fun _ => rfl) rfl rfl (fun _ => trivial) fun _ _ _ => rfl⟩
  | notCancelled c =>
    have hloop : (t.loop connId).order = none := by rw [hl]; rfl
    refine ⟨owned,h.quiet hloop ?_ (fun id => ?_) rfl rfl (fun _ => trivial) fun c' id hc => ?_⟩
    · have hsame : (t.gateway.setOperation connId c.orderId .active).accountManager.accounts =
          t.gateway.accountManager.accounts := by rw [accountManager_setOperation]
      exact hsame
    · exact (congrArg (fun m : OrdMap OrderId OrderMetadata => tokenOf m[id]?) (pendingOrders_setOperation ..)).trans
        (tokenOf_withOperation ..)
    · exact localOrder_setOperation_ne _ hc c.orderId id .active

end Owned

/-! ### The other task -/

/-- The side of a fill that is to be settled. -/
def settling (t : Tasks) : Option (Fill × OrderMetadata) :=
  match t.responder with
  | .filling _ fill (some md) _ .maker => some (fill,md)
  | .filling _ fill _ (some md) .taker => some (fill,md)
  | _ => none

/-- What is asked of an event that is taken up: its orders are in the hands of no task. -/
def Takes (t : Tasks) : Event → Prop
  | .fill fill => fill.makerOrderId ≠ fill.takerOrderId ∧ t.Free fill.makerOrderId ∧ t.Free fill.takerOrderId
  | .ack ack => t.Free ack.orderId
  | .reject reject => ∀ id, reject.orderId = some id → t.Free id
  | _ => True

namespace Owned

/-- The other task goes on. It touches its orders, or those that nobody works on. -/
theorem responds (h : Owned t owned) {g : GatewayContext} {r : Responder} {owned' : Tokens}
    (hbacked : Tokens.Backed g.accountManager owned')
    (htaken : ∀ id ∈ r.orders, id ∈ t.responder.orders ∨ t.Free id)
    (hframe : ∀ id, id ∉ t.responder.orders → id ∉ r.orders → view g owned' id = view t.gateway owned id ∨
      t.Free id ∧ owned'[id]? = tokenOf g.pendingOrders[id]?)
    (hholds : r.Holds (view g owned'))
    (hclean : ∀ id ∈ t.responder.orders, id ∉ r.orders → owned'[id]? = tokenOf g.pendingOrders[id]?)
    (hclients : g.clients = t.gateway.clients) : Owned { t with gateway := g, responder := r } owned' := by
  refine ⟨hbacked,?_,fun c id hid => ?_⟩
  · refine h.custody.step none (fun w hw => ?_) htaken hframe hholds hclean
    cases w with
    | none => exact absurd rfl hw
    | some c => rfl
  · change (g.localOrder c id).isSome
    rw [localOrder,hclients]
    exact h.known c id hid

theorem sends (h : Owned t owned) {connIds : List UInt64} {event : Event} (hr : t.responder.orders = []) :
    Owned { t with responder := .sending connIds event } owned := by
  refine h.responds (g := t.gateway) (r := .sending connIds event) h.backed (fun id hid => ?_) (fun _ _ _ => .inl rfl)
    trivial (fun id hid => ?_) rfl
  · cases hid
  · rw [hr] at hid
    cases hid

theorem view_erase (g : GatewayContext) (owned : Tokens) {id i : OrderId} (hi : id ≠ i) :
    view g (owned.erase id) i = view g owned i := by
  rw [view,OrdMap.get_erase,if_neg hi]
  rfl

theorem view_untrack (g : GatewayContext) (owned : Tokens) {id i : OrderId} (hi : id ≠ i) :
    view { g with pendingOrders := g.pendingOrders.erase id } owned i = view g owned i := by
  rw [view,OrdMap.get_erase,if_neg hi]
  rfl

theorem ack (h : Owned t owned) (hidle : t.responder = .idle) {a : Ack} (hfree : t.Free a.orderId) :
    ∃ owned', Owned { t with gateway := t.gateway.handleAck a, responder := .sending [connId] (.ack a) } owned' := by
  have horders : t.responder.orders = [] := by rw [hidle]; rfl
  have hkept : Owned { t with responder := .sending [connId] (.ack a) } owned := h.sends horders
  unfold handleAck
  cases hmd : t.gateway.pendingOrders[a.orderId]? with
  | none => exact ⟨owned,hkept⟩
  | some md =>
    simp only
    cases md.operation with
    | active => exact ⟨owned,hkept⟩
    | cancelPending =>
      have htoken := h.free_token hfree
      rw [hmd] at htoken
      have hrelease : t.gateway.release a.orderId =
          { t.gateway with
            accountManager := t.gateway.accountManager.releaseReservation md.reservationToken
            pendingOrders := t.gateway.pendingOrders.erase a.orderId } := by
        rw [release,hmd]
      rw [hrelease]
      refine ⟨owned.erase a.orderId,h.responds ?_ (fun id hid => ?_) (fun id _ _ => ?_) trivial (fun id hid => ?_) rfl⟩
      · exact Tokens.erase_backed (Sound.releaseReservation h.backed (Tokens.mem_all htoken)) htoken
      · cases hid
      · by_cases hid : a.orderId = id
        · refine .inr ⟨hid ▸ hfree,?_⟩
          rw [OrdMap.get_erase,OrdMap.get_erase,if_pos hid,if_pos hid]
          rfl
        · refine .inl ?_
          rw [view,OrdMap.get_erase,OrdMap.get_erase,if_neg hid,if_neg hid]
          rfl
      · rw [horders] at hid
        cases hid

theorem event (h : Owned t owned) {event : Event} (ht : t.Takes event) :
    ∃ owned', Owned (t.event connId event) owned' := by
  unfold Tasks.event
  split_ifs with hidle
  · exact ⟨owned,h⟩
  have hidle := not_not.mp hidle
  have horders : t.responder.orders = [] := by rw [hidle]; rfl
  cases event with
  | fill fill =>
    obtain ⟨hne,hmaker,htaker⟩ := ht
    refine ⟨owned,h.responds (g := t.gateway) h.backed (fun id hid => ?_) (fun _ _ _ => .inl rfl) ⟨hne,?_,?_⟩
      (fun id hid => ?_) rfl⟩
    · right
      rcases List.mem_pair.mp hid with rfl | rfl
      · exact hmaker
      · exact htaker
    · exact Prod.ext (h.free_token hmaker) rfl
    · exact Prod.ext (h.free_token htaker) rfl
    · rw [horders] at hid
      cases hid
  | ack a => exact h.ack hidle ht
  | reject reject =>
    obtain ⟨serverSeq,clientSeq,orderId,reason⟩ := reject
    cases orderId with
    | none => exact ⟨owned,h.sends horders⟩
    | some orderId =>
      have hfree := ht orderId rfl
      have htoken := h.free_token hfree
      simp only [Option.bind_some]
      cases hmd : t.gateway.pendingOrders[orderId]? with
      | none => exact ⟨owned,h.sends horders⟩
      | some md =>
        rw [hmd] at htoken
        refine ⟨owned,h.responds h.backed (fun id hid => ?_) (fun id _ hid => .inl ?_) ⟨orderId,rfl,?_⟩
          (fun id hid => ?_) rfl⟩
        · obtain rfl := List.mem_singleton.mp hid
          exact .inr hfree
        · exact view_untrack _ _ fun heq => hid (heq ▸ List.mem_singleton_self _)
        · refine Prod.ext htoken ?_
          exact congrArg tokenOf ((OrdMap.get_erase ..).trans (if_pos rfl))
        · rw [horders] at hid
          cases hid
  | _ => exact ⟨owned,h.sends horders⟩

/-- A side of a fill is settled with its token, which is used up then. -/
theorem settled (h : Owned t owned) {fill : Fill} {md : OrderMetadata} {id : OrderId}
    (htoken : owned[id]? = some md.reservationToken)
    (hsettles : Settles ⟨t.gateway.accountManager,[]⟩ fill md.reservationToken (decide (md.side = Side.buy))) :
    Tokens.Backed (t.settle fill md).accountManager (owned.erase id) :=
  Tokens.erase_backed (Sound.applyFill (l := ⟨t.gateway.accountManager,Tokens.all owned⟩) h.backed
    (Tokens.mem_all htoken) hsettles) htoken

section Fill
variable {fill : Fill} {maker taker : Option OrderMetadata}

theorem makerSide (h : Owned t owned) (hr : t.responder = .filling connId fill maker taker .maker)
    (hsettles : ∀ md, maker = some md →
      Settles ⟨t.gateway.accountManager,[]⟩ fill md.reservationToken (decide (md.side = Side.buy))) :
    ∃ owned', Owned t.respond.1 owned' := by
  have hholds : t.responder.Holds (view t.gateway owned) := h.custody.holds none
  have horders : t.responder.orders = [fill.makerOrderId,fill.takerOrderId] := by rw [hr]; rfl
  rw [hr] at hholds
  obtain ⟨hne,hmaker,htaker⟩ := hholds
  simp only [respond,hr]
  cases maker with
  | none =>
    refine ⟨owned,h.responds (g := t.gateway) h.backed (fun id hid => ?_) (fun _ _ _ => .inl rfl) htaker
      (fun id hid hnot => ?_) rfl⟩
    · rw [horders]
      exact .inl (List.mem_cons_of_mem _ hid)
    · rw [horders] at hid
      rcases List.mem_pair.mp hid with rfl | rfl
      · exact (congrArg Prod.fst hmaker).trans (congrArg Prod.snd hmaker).symm
      · exact absurd (List.mem_singleton_self _) hnot
  | some md =>
    refine ⟨owned.erase fill.makerOrderId,h.responds (h.settled (congrArg Prod.fst hmaker) (hsettles md rfl))
      (fun id hid => ?_) (fun id hid _ => .inl ?_) ⟨hne,?_,?_⟩ (fun id hid hnot => ?_) rfl⟩
    · rw [horders]
      exact .inl hid
    · rw [horders] at hid
      exact view_erase t.gateway owned fun heq => hid (heq ▸ List.mem_cons_self ..)
    · exact (OrdMap.get_erase ..).trans (if_pos rfl)
    · exact (view_erase t.gateway owned hne).trans htaker
    · rw [horders] at hid
      exact absurd hid hnot

theorem makerSettled (h : Owned t owned) (hr : t.responder = .filling connId fill maker taker .makerSettled) :
    Owned t.respond.1 owned := by
  have hholds : t.responder.Holds (view t.gateway owned) := h.custody.holds none
  have horders : t.responder.orders = [fill.makerOrderId,fill.takerOrderId] := by rw [hr]; rfl
  rw [hr] at hholds
  obtain ⟨hne,hmaker,htaker⟩ := hholds
  simp only [respond,hr]
  refine h.responds (g := t.untrack fill.makerOrderId) h.backed (fun id hid => ?_) (fun id hid _ => .inl ?_) ?_
    (fun id hid hnot => ?_) rfl
  · rw [horders]
    exact .inl (List.mem_cons_of_mem _ hid)
  · rw [horders] at hid
    exact view_untrack _ _ fun heq => hid (heq ▸ List.mem_cons_self ..)
  · exact (view_untrack _ _ hne).trans htaker
  · rw [horders] at hid
    rcases List.mem_pair.mp hid with rfl | rfl
    · exact Eq.trans hmaker (congrArg tokenOf ((OrdMap.get_erase ..).trans (if_pos rfl))).symm
    · exact absurd (List.mem_singleton_self _) hnot

theorem takerSide (h : Owned t owned) (hr : t.responder = .filling connId fill maker taker .taker)
    (hsettles : ∀ md, taker = some md →
      Settles ⟨t.gateway.accountManager,[]⟩ fill md.reservationToken (decide (md.side = Side.buy))) :
    ∃ owned', Owned t.respond.1 owned' := by
  have hholds : t.responder.Holds (view t.gateway owned) := h.custody.holds none
  have horders : t.responder.orders = [fill.takerOrderId] := by rw [hr]; rfl
  rw [hr] at hholds
  simp only [respond,hr]
  cases taker with
  | none =>
    refine ⟨owned,h.responds (g := t.gateway) h.backed (fun id hid => ?_) (fun _ _ _ => .inl rfl) trivial
      (fun id hid _ => ?_) rfl⟩
    · cases hid
    · rw [horders] at hid
      obtain rfl := List.mem_singleton.mp hid
      exact (congrArg Prod.fst hholds).trans (congrArg Prod.snd hholds).symm
  | some md =>
    refine ⟨owned.erase fill.takerOrderId,h.responds (h.settled (congrArg Prod.fst hholds) (hsettles md rfl))
      (fun id hid => ?_) (fun id hid _ => .inl ?_) ?_ (fun id hid hnot => ?_) rfl⟩
    · rw [horders]
      exact .inl hid
    · rw [horders] at hid
      exact view_erase t.gateway owned fun heq => hid (heq ▸ List.mem_singleton_self _)
    · exact (OrdMap.get_erase ..).trans (if_pos rfl)
    · rw [horders] at hid
      exact absurd hid hnot

theorem takerSettled (h : Owned t owned) (hr : t.responder = .filling connId fill maker taker .takerSettled) :
    Owned t.respond.1 owned := by
  have hholds : t.responder.Holds (view t.gateway owned) := h.custody.holds none
  have horders : t.responder.orders = [fill.takerOrderId] := by rw [hr]; rfl
  rw [hr] at hholds
  simp only [respond,hr]
  refine h.responds (g := t.untrack fill.takerOrderId) h.backed (fun id hid => ?_) (fun id hid _ => .inl ?_) trivial
    (fun id hid _ => ?_) rfl
  · cases hid
  · rw [horders] at hid
    exact view_untrack _ _ fun heq => hid (heq ▸ List.mem_singleton_self _)
  · rw [horders] at hid
    obtain rfl := List.mem_singleton.mp hid
    exact Eq.trans hholds (congrArg tokenOf ((OrdMap.get_erase ..).trans (if_pos rfl))).symm

end Fill

theorem releasing (h : Owned t owned) {reject : Reject} {token : ReservationToken}
    (hr : t.responder = .releasing connId reject token) : ∃ owned', Owned t.respond.1 owned' := by
  have hholds : t.responder.Holds (view t.gateway owned) := h.custody.holds none
  rw [hr] at hholds
  obtain ⟨id,hid,hview⟩ := hholds
  have horders : t.responder.orders = [id] := by rw [hr,Responder.orders,hid]; rfl
  have htoken : owned[id]? = some token := congrArg Prod.fst hview
  simp only [respond,hr]
  refine ⟨owned.erase id,h.responds (g := { t.gateway with
    accountManager := t.gateway.accountManager.releaseReservation token }) ?_ (fun i hi => ?_) (fun i hi _ => .inl ?_)
    trivial (fun i hi _ => ?_) rfl⟩
  · exact Tokens.erase_backed (Sound.releaseReservation h.backed (Tokens.mem_all htoken)) htoken
  · cases hi
  · rw [horders] at hi
    exact view_erase t.gateway owned fun heq => hi (heq ▸ List.mem_singleton_self _)
  · rw [horders] at hi
    obtain rfl := List.mem_singleton.mp hi
    exact ((OrdMap.get_erase ..).trans (if_pos rfl)).trans (congrArg Prod.snd hview).symm

theorem respond (h : Owned t owned) (hsettles : ∀ fill md, t.settling = some (fill,md) →
      Settles ⟨t.gateway.accountManager,[]⟩ fill md.reservationToken (decide (md.side = Side.buy))) :
    ∃ owned', Owned t.respond.1 owned' := by
  cases hr : t.responder with
  | idle =>
    simp only [Tasks.respond,hr]
    exact ⟨owned,h⟩
  | filling connId fill maker taker stage =>
    cases stage with
    | maker =>
      refine h.makerSide hr fun md hmd => hsettles fill md ?_
      rw [settling,hr,hmd]
    | makerSettled => exact ⟨owned,h.makerSettled hr⟩
    | taker =>
      refine h.takerSide hr fun md hmd => hsettles fill md ?_
      subst hmd
      simp only [settling,hr]
    | takerSettled => exact ⟨owned,h.takerSettled hr⟩
  | releasing connId reject token => exact h.releasing hr
  | sending connIds event =>
    simp only [Tasks.respond,hr]
    refine ⟨owned,h.responds (g := t.gateway) (r := .idle) h.backed (fun id hid => ?_) (fun _ _ _ => .inl rfl) trivial
      (fun id hid => ?_) rfl⟩
    · cases hid
    · rw [hr] at hid
      cases hid

end Owned

/-! ### Steps -/

/-- What is asked of an action. An order that is taken up is in the hands of no task, a command that is approved
reaches its engine, and a side of a fill costs no more than its token holds. -/
def Apart (t : Tasks) : Action → Prop
  | .connect _ => t.loop t.gateway.nextConnId = .idle
  | .disconnect _ => True
  | .frame connId bytes => ∀ cmd ∈ t.gateway.decoded connId bytes, t.Starts connId cmd
  | .proceed connId routes => ∀ cmd ∈ (t.loop connId).approval, ((commandSymbolId cmd).map routes).getD false
  | .event _ event => t.Takes event
  | .respond => ∀ x ∈ t.settling,
      Settles ⟨t.gateway.accountManager,[]⟩ x.1 x.2.reservationToken (decide (x.2.side = Side.buy))

section Decidable
variable (t : Tasks)

instance (price qty : Int64) : Decidable (Priced price qty) := inferInstanceAs (Decidable (_ ∧ _))

instance (l : TokenLedger) (fill : Fill) (token : ReservationToken) (isBuy : Bool) :
    Decidable (l.Settles fill token isBuy) :=
  inferInstanceAs (Decidable (0 < fill.price ∧ 0 < fill.qty ∧
    if isBuy then _ else _ ∧ ∀ s ∈ l.accountManager.accounts[token.accountId]?, _))

instance (connId : UInt64) (cmd : Command) : Decidable (t.Starts connId cmd) :=
  match cmd with
  | .newOrder order =>
    inferInstanceAs (Decidable ((order.side = .buy → Priced order.price order.qty) ∧ t.Free order.orderId ∧ _))
  | .replace replace => inferInstanceAs (Decidable (_ ∧ t.Free replace.orderId ∧
      ∀ md ∈ t.gateway.pendingOrders[replace.orderId]?, _ ∧ _))
  | .cancel _ | .queryAccount _ | .authenticate _ | .setRiskLimits _ => isTrue trivial

instance (event : Event) : Decidable (t.Takes event) :=
  match event with
  | .fill _ => inferInstanceAs (Decidable (_ ≠ _ ∧ t.Free _ ∧ t.Free _))
  | .ack a => inferInstanceAs (Decidable (t.Free a.orderId))
  | .reject r => inferInstanceAs (Decidable (∀ id ∈ r.orderId, t.Free id))
  | .bookTop _ | .accountState _ | .authSuccess _ | .authFailure _ => isTrue trivial

instance (a : Action) : Decidable (t.Apart a) :=
  match a with
  | .connect _ => inferInstanceAs (Decidable (_ = _))
  | .disconnect _ => isTrue trivial
  | .frame connId bytes => inferInstanceAs (Decidable (∀ cmd ∈ t.gateway.decoded connId bytes, t.Starts connId cmd))
  | .proceed connId routes =>
    inferInstanceAs (Decidable (∀ cmd ∈ (t.loop connId).approval, ((commandSymbolId cmd).map routes).getD false))
  | .event _ event => inferInstanceAs (Decidable (t.Takes event))
  | .respond => inferInstanceAs (Decidable (∀ x ∈ t.settling, _))

end Decidable

namespace Owned

/-- The connections change, but not the orders of a read loop that replaces one. -/
theorem reconnects (h : Owned t owned) {g : GatewayContext}
    (haccounts : g.accountManager = t.gateway.accountManager) (hpending : g.pendingOrders = t.gateway.pendingOrders)
    (hlocal : ∀ c id, t.loop c ≠ .idle → g.localOrder c id = t.gateway.localOrder c id) :
    Owned { t with gateway := g } owned := by
  have hview : view g owned = view t.gateway owned := funext fun id => by rw [view,hpending]; rfl
  refine ⟨?_,?_,fun c id hid => ?_⟩
  · rw [haccounts]
    exact h.backed
  · rw [hview]
    exact h.custody
  · have hbusy : t.loop c ≠ .idle := by
      intro hidle
      change (t.loop c).replaced = some id at hid
      rw [hidle] at hid
      cases hid
    change (g.localOrder c id).isSome
    rw [hlocal c id hbusy]
    exact h.known c id hid

theorem connect (h : Owned t owned) (decodeCommand : List UInt8 → Option Command)
    (hnew : t.loop t.gateway.nextConnId = .idle) :
    Owned { t with gateway := t.gateway.connect decodeCommand } owned := by
  refine h.reconnects rfl rfl fun c id hbusy => ?_
  have hne : t.gateway.nextConnId ≠ c := fun heq => hbusy (heq ▸ hnew)
  simp only [localOrder,GatewayContext.connect,OrdMap.get_insert,if_neg hne]

theorem disconnect (h : Owned t owned) (connId : UInt64) : Owned (t.disconnect connId) owned := by
  unfold Tasks.disconnect
  split_ifs with hidle
  · refine h.reconnects rfl rfl fun c id hbusy => ?_
    have hne : connId ≠ c := fun heq => hbusy (heq ▸ hidle)
    simp only [localOrder,GatewayContext.disconnect,OrdMap.get_erase,if_neg hne]
  · exact h

theorem frame (h : Owned t owned) {bytes : List UInt8}
    (hs : ∀ cmd ∈ t.gateway.decoded connId bytes, t.Starts connId cmd) :
    ∃ owned', Owned (t.frame connId bytes).1 owned' := by
  unfold Tasks.frame
  split_ifs with hidle
  · exact ⟨owned,h⟩
  · cases hcmd : t.gateway.decoded connId bytes with
    | none => exact ⟨owned,h⟩
    | some cmd => exact h.begin (not_not.mp hidle) (hs cmd hcmd)

theorem step (h : Owned t owned) {a : Action} (ha : t.Apart a) : ∃ owned', Owned (t.step a).1 owned' := by
  cases a with
  | connect decodeCommand => exact ⟨owned,h.connect decodeCommand ha⟩
  | disconnect connId => exact ⟨owned,h.disconnect connId⟩
  | frame connId bytes => exact h.frame ha
  | proceed connId routes => exact h.proceed ha
  | event connId event => exact h.event ha
  | respond => exact h.respond fun fill md hside => ha (fill,md) hside

theorem run (h : Owned t owned) {as : List Action} (has : machine.Obeys Apart t as) :
    ∃ owned', Owned (machine.run t as).1 owned' := by
  induction as generalizing t owned with
  | nil => exact ⟨owned,h⟩
  | cons a as ih =>
    obtain ⟨owned',h'⟩ := h.step has.1
    exact ih h' has.2

theorem start {g : GatewayContext} (hnone : g.pendingOrders = ∅)
    (hfree : ∀ (a : AccountId) s, g.accountManager.accounts[a]? = some s → s.tentativeReserved = 0 ∧ 0 ≤ s.buyingPower) :
    Owned (start g) ∅ := by
  have hall : Tokens.all (∅ : Tokens) = [] := by
    rw [Tokens.all,List.map_eq_nil_iff]
    exact List.eq_nil_iff_forall_not_mem.mpr fun e he => by simpa using OrdMap.mem_toList.mp he
  have hloop (c : UInt64) : (Tasks.start g).loop c = .idle := by simp [loop,Tasks.start]
  refine ⟨?_,⟨fun {w w' id} hid _ => ?_,fun w => ?_,fun id _ => ?_⟩,fun c id hid => ?_⟩
  · rw [Tokens.Backed,hall]
    refine ⟨fun _ ht => absurd ht List.not_mem_nil,fun a => ?_,fun a s hs => ?_⟩
    · change 0 = (g.accountManager.accounts[a]?).elim 0 fun s => s.tentativeReserved.toInt
      cases hs : g.accountManager.accounts[a]? with
      | none => rfl
      | some s => rw [Option.elim_some,(hfree a s hs).1]; rfl
    · rw [(hfree a s hs).1]
      exact Int64.le_iff_toInt_le.mp (hfree a s hs).2
  · cases w with
    | none => cases hid
    | some c =>
      rw [phase,hloop] at hid
      cases hid
  · cases w with
    | none => exact trivial
    | some c =>
      rw [phase,hloop]
      exact trivial
  · change (∅ : Tokens)[id]? = tokenOf g.pendingOrders[id]?
    rw [hnone]
    simp [tokenOf]
  · rw [hloop] at hid
    cases hid

/-- When no order is in the hands of a task, the tokens are those that the orders are tracked with. -/
theorem outstanding_eq (h : Owned t owned) (hfree : ∀ id, t.Free id) (a : AccountId) :
    outstanding (Tokens.all owned) a = reservedTotal t.gateway.pendingOrders a := by
  have hheld (md : OrderMetadata) : (held a md).toInt = amountFor a md.reservationToken := by
    unfold held amountFor
    split_ifs <;> rfl
  rw [outstanding,Tokens.all,List.map_map,reservedTotal,OrdMap.sumEntries]
  refine OrdMap.sum_eq_of_keys (OrdMap.keys_nodup _) (OrdMap.keys_nodup _) (fun e he _ => ?_) fun e he _ => ?_
  · have htoken := (h.free_token (hfree e.1)).symm.trans (OrdMap.mem_toList.mp he)
    obtain ⟨md,hmd,heq⟩ := Option.map_eq_some_iff.mp htoken
    exact ⟨(e.1,md),OrdMap.mem_toList.mpr hmd,rfl,(hheld md).trans (congrArg (amountFor a) heq)⟩
  · have htoken := h.free_token (hfree e.1)
    rw [OrdMap.mem_toList.mp he] at htoken
    exact ⟨(e.1,e.2.reservationToken),OrdMap.mem_toList.mpr htoken,rfl,(hheld e.2).symm⟩

end Owned

/-- Read loops and the other task may go on in any order. As long as no two of them work on the same order, every
account can pay for what it has reserved, and between the commands and events it has reserved what its tracked orders
hold. -/
theorem solvent_apart {g : GatewayContext} (hnone : g.pendingOrders = ∅)
    (hfree : ∀ (a : AccountId) s, g.accountManager.accounts[a]? = some s → s.tentativeReserved = 0 ∧ 0 ≤ s.buyingPower)
    {as : List Action} (has : machine.Obeys Apart (start g) as) {a : AccountId} {s : AccountState}
    (hs : (machine.run (start g) as).1.gateway.accountManager.accounts[a]? = some s) :
    0 ≤ s.tentativeReserved ∧ s.tentativeReserved ≤ s.buyingPower ∧
      ((∀ id, (machine.run (start g) as).1.Free id) →
        s.tentativeReserved.toInt = reservedTotal (machine.run (start g) as).1.gateway.pendingOrders a) := by
  obtain ⟨owned,howned⟩ := (Owned.start hnone hfree).run has
  have hsound : Sound _ := howned.backed
  refine ⟨Int64.le_iff_toInt_le.mpr (hsound.reserved_nonneg hs),Int64.le_iff_toInt_le.mpr (hsound.solvent a s hs),
    fun hidle => ?_⟩
  rw [hsound.reserved_eq hs]
  exact howned.outstanding_eq hidle a

/-- Two clients log in. Each places an order, and the one goes on while the other is between two locks: the sell is
reserved before the buy is tracked. While the engine's fill of both is settled, the first client places another one. -/
def sideBySide : List Action :=
  let send (connId : UInt64) (cmd : Command) : Action := .frame connId (BinaryCodec.encodeCommand cmd)
  let decode : List UInt8 → Option Command := fun bytes => (BinaryCodec.decodeCommand bytes).toOption
  let go (connId : UInt64) : Action := .proceed connId fun _ => true
  [.connect decode,.connect decode,send 1 (.authenticate ⟨"test-key-1"⟩),send 2 (.authenticate ⟨"test-key-1"⟩),
    send 1 (.newOrder ⟨1,3,1,1,.buy,10,5,.gtc,⟨false⟩⟩),send 2 (.newOrder ⟨1,4,1,1,.sell,10,5,.gtc,⟨false⟩⟩),
    go 2,go 1,go 1,go 2,.event 2 (.fill ⟨1,2,1,4,3,10,5⟩),.respond,
    send 1 (.newOrder ⟨2,5,1,1,.buy,10,8,.gtc,⟨false⟩⟩),.respond,go 1,.respond,go 1,.respond,.respond]

theorem AtRest.free (h : AtRest t) (id : OrderId) : t.Free id := by
  refine free_iff.mpr ⟨fun c => ?_,?_⟩
  · rw [h.loops]
    exact nofun
  · rw [h.responder]
    exact List.not_mem_nil

theorem sideBySide_solvent : machine.Obeys Apart (start opening) sideBySide ∧
    ∃ s, (machine.run (start opening) sideBySide).1.gateway.accountManager.accounts[(1 : AccountId)]? = some s ∧
      0 ≤ s.tentativeReserved ∧ s.tentativeReserved ≤ s.buyingPower ∧ s.tentativeReserved.toInt = 80 := by
  have hapart : machine.Obeys Apart (start opening) sideBySide := by decide +kernel
  have hloops : ∀ e ∈ (machine.run (start opening) sideBySide).1.loops.toList, e.2 = .idle := by decide +kernel
  have hrest : AtRest (machine.run (start opening) sideBySide).1 := by
    refine ⟨fun c => ?_,by decide +kernel⟩
    rw [loop]
    cases hl : (machine.run (start opening) sideBySide).1.loops[c]? with
    | none => rfl
    | some l => exact hloops (c,l) (OrdMap.mem_toList.mpr hl)
  have hsum : reservedTotal (machine.run (start opening) sideBySide).1.gateway.pendingOrders 1 = 80 := by decide +kernel
  have hopening : ∀ (a : AccountId) s, opening.accountManager.accounts[a]? = some s →
      s.tentativeReserved = 0 ∧ 0 ≤ s.buyingPower := by
    intro a s hs
    change ((∅ : OrdMap AccountId AccountState).insert 1 _)[a]? = some s at hs
    rw [OrdMap.get_insert] at hs
    split_ifs at hs
    · rw [← Option.some.inj hs]
      decide
    · simp at hs
  obtain ⟨s,hs⟩ := Option.isSome_iff_exists.mp (by decide +kernel :
    ((machine.run (start opening) sideBySide).1.gateway.accountManager.accounts[(1 : AccountId)]?).isSome)
  obtain ⟨hnn,hle,hheld⟩ := solvent_apart rfl hopening hapart hs
  exact ⟨hapart,s,hs,hnn,hle,(hheld hrest.free).trans hsum⟩

end Tasks
end Gateway
end HighPerfTrading
