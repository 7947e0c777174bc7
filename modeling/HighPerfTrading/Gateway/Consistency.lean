import HighPerfTrading.Codecs.Binary
import HighPerfTrading.Gateway.Reservations
import HighPerfTrading.Gateway.RoutingFailure
import HighPerfTrading.Library.Simulation

/-! Runs of the gateway alone, with any frames and any engine events: the tentative reservations stay the
sums of the tracked tokens while no token is lost, kept too long or taken off twice. -/
namespace HighPerfTrading
namespace Gateway
namespace GatewayContext
variable {g g' : GatewayContext} {connId : UInt64}

/-- What can happen to the gateway: a connection opens or closes, a frame is read, an event of an engine is
handled. -/
inductive Step
  | connect (decodeCommand : List UInt8 → Option Command)
  | disconnect (connId : UInt64)
  | frame (connId : UInt64) (bytes : List UInt8) (routes : SymbolId → Bool)
  | event (connId : UInt64) (event : Event)

def step (g : GatewayContext) : Step → GatewayContext
  | .connect decodeCommand => g.connect decodeCommand
  | .disconnect connId => g.disconnect connId
  | .frame connId bytes routes => (g.handleFrame connId bytes routes).1
  | .event connId event => (g.handleEngineEvent connId event).1

/-- The gateway alone, without what it sends. -/
def alone : Machine GatewayContext Step Empty := .silent step

/-- Where the runs from a gateway lead whose every step is allowed. -/
def Run (g₀ : GatewayContext) (allows : GatewayContext → Step → Prop) (g : GatewayContext) : Prop :=
  alone.Reaches allows g₀ g

theorem Run.start {g₀ : GatewayContext} {allows : GatewayContext → Step → Prop} : Run g₀ allows g₀ :=
  Machine.Reaches.start

theorem Run.step {g₀ : GatewayContext} {allows : GatewayContext → Step → Prop} (h : Run g₀ allows g) (s : Step)
    (ha : allows g s) : Run g₀ allows (g.step s) :=
  Machine.Reaches.step h s ha

/-- The commands name accounts that exist. -/
def NamesAccounts (g : GatewayContext) : Step → Prop
  | .frame connId bytes _ => ∀ cmd, g.decoded connId bytes = some cmd → ∀ a, commandAccountId cmd = some a →
    (g.accountManager.accounts[a]?).isSome
  | _ => True

/-- The tokens that the maps gain and lose are those that the accounts gain and lose. A new order overwrites
no entry that holds something, unless it is not routed: then the entry it leaves must not hold more. A
replacement is for the account of the token it gives up; it is tracked, or holds as much as the order. -/
def KeepsTokens (g : GatewayContext) (connId : UInt64) (routed : Bool) : Command → Prop
  | .newOrder no =>
    match g.pendingOrders[no.orderId]? with
    | none => routed ∨ AccountManager.orderRequired no = 0
    | some md =>
      if routed then md.reservationToken.amount = 0
      else md.reservationToken.amount = AccountManager.orderRequired no ∧
        (md.reservationToken.accountId = no.accountId ∨ AccountManager.orderRequired no = 0)
  | .replace r => ∀ md, g.pendingOrders[r.orderId]? = some md →
    match g.localOrder connId r.orderId with
    | some _ => (md.reservationToken.accountId = r.accountId ∨ md.reservationToken.amount = 0) ∧
      (routed ∨ r.newPrice*r.newQty = 0)
    | none =>
      if routed then md.reservationToken.amount = r.newPrice*r.newQty else md.reservationToken.amount = 0
  | _ => True

/-- Commands that get as far as the router keep the tokens, and a fill with the same order on both sides
settles no token that holds something. -/
def KeepsBalance (g : GatewayContext) : Step → Prop
  | .frame connId bytes routes => ∀ cmd, g.decoded connId bytes = some cmd → g.ReachesRouter connId cmd →
    g.KeepsTokens connId (((commandSymbolId cmd).map routes).getD false) cmd
  | .event _ (.fill f) => f.makerOrderId = f.takerOrderId →
    ∀ md, g.pendingOrders[f.makerOrderId]? = some md → md.reservationToken.amount = 0
  | _ => True

/-! ### Frames -/

/-- What an account gets back when a command with this token is not routed. -/
def returned (token : ReservationToken) (routed : Bool) (a : AccountId) : Int64 :=
  if routed then 0 else if token.accountId = a then token.amount else 0

/-- Routing changes no map, and releases the token when it fails. -/
theorem route_keeps (g : GatewayContext) (connId : UInt64) (cmd : Command) (token : ReservationToken) (routed : Bool) :
    (g.route connId cmd token routed).1.pendingOrders = g.pendingOrders ∧
      ∀ a : AccountId, ((g.route connId cmd token routed).1.accountManager.accounts[a]?).map AccountState.tentativeReserved =
        (g.accountManager.accounts[a]?).map fun s => s.tentativeReserved-returned token routed a := by
  cases routed with
  | true =>
    refine ⟨rfl,fun a => ?_⟩
    simp [route,returned]
  | false =>
    obtain ⟨hfunds,hpending,-⟩ := g.route_failed connId cmd token
    refine ⟨hpending,fun a => ?_⟩
    rw [hfunds,AccountManager.accounts_releaseReservation,Option.map_map]
    refine congrArg (Option.map · _) (funext fun s => ?_)
    by_cases ha : a = token.accountId
    · simp [returned,ha]
    · simp [returned,ha,Ne.symm ha]

/-- The reservations follow the tokens when both change by the same amounts. -/
theorem Balanced.change (h : Balanced g) (δ : AccountId → Int64)
    (hacct : ∀ a : AccountId, (g'.accountManager.accounts[a]?).map AccountState.tentativeReserved =
      (g.accountManager.accounts[a]?).map fun s => s.tentativeReserved+δ a)
    (hsum : ∀ a : AccountId, (g.accountManager.accounts[a]?).isSome →
      reserved g'.pendingOrders a = reserved g.pendingOrders a+δ a) :
    Balanced g' := by
  intro a s' hs'
  have hown := hacct a
  rw [hs',Option.map_some] at hown
  obtain ⟨s,hs,heq⟩ := Option.map_eq_some_iff.mp hown.symm
  rw [← heq,hsum a (by rw [hs]; rfl),h a s hs]

theorem tentative_order {m m' : AccountManager} {no : NewOrder} {token : ReservationToken}
    (h : m.checkAndReserve (.newOrder no) = .ok (token,m')) (a : AccountId) :
    (m'.accounts[a]?).map AccountState.tentativeReserved = (m.accounts[a]?).map fun s =>
      s.tentativeReserved+if no.accountId = a then AccountManager.orderRequired no else 0 := by
  obtain ⟨state,hs,-,rfl⟩ := AccountManager.checkAndReserveOrder_ok h
  rw [AccountManager.accounts_put]
  by_cases ha : no.accountId = a
  · subst ha; simp [hs]
  · simp [ha]

theorem tentative_replace {m m' : AccountManager} {old token : ReservationToken} {r : Replace}
    (h : m.adjustReservation old r = .ok (token,m')) (a : AccountId) :
    (m'.accounts[a]?).map AccountState.tentativeReserved = (m.accounts[a]?).map fun s =>
      s.tentativeReserved+if r.accountId = a then r.newPrice*r.newQty-old.amount else 0 := by
  obtain ⟨state,hs,-,rfl⟩ := AccountManager.adjustReservation_ok h
  rw [AccountManager.accounts_put]
  by_cases ha : r.accountId = a
  · subst ha
    simp only [if_true,Option.map_some,hs]
    rw [sub_add_eq_add_sub,add_sub_assoc]
  · simp [ha]

/-- A command that reserves `δ` and is then routed or not. -/
theorem Balanced.route (h : Balanced g) {g₁ : GatewayContext} {m : AccountManager} (hm : g₁.accountManager = m)
    (cmd : Command) (token : ReservationToken) (routed : Bool) (δ : AccountId → Int64)
    (hacct : ∀ a : AccountId, (m.accounts[a]?).map AccountState.tentativeReserved =
      (g.accountManager.accounts[a]?).map fun s => s.tentativeReserved+δ a)
    (hsum : ∀ a : AccountId, reserved g₁.pendingOrders a = reserved g.pendingOrders a+(δ a-returned token routed a)) :
    Balanced (g₁.route connId cmd token routed).1 := by
  subst hm
  obtain ⟨hpending,hroute⟩ := g₁.route_keeps connId cmd token routed
  refine h.change (fun a => δ a-returned token routed a) (fun a => ?_) fun a _ => ?_
  · have hshift : (g₁.accountManager.accounts[a]?).map (fun s => s.tentativeReserved-returned token routed a) =
        ((g₁.accountManager.accounts[a]?).map AccountState.tentativeReserved).map (·-returned token routed a) := by
      rw [Option.map_map]; rfl
    rw [hroute,hshift,hacct,Option.map_map]
    refine congrArg (Option.map · _) (funext fun s => ?_)
    rw [Function.comp_apply,add_sub_assoc]
  · rw [hpending,hsum]

theorem ordered_balanced (h : Balanced g) {no : NewOrder} {routed : Bool} {token : ReservationToken} {m : AccountManager}
    (hok : g.accountManager.checkAndReserve (.newOrder no) = .ok (token,m))
    (hk : g.KeepsTokens connId routed (.newOrder no)) :
    Balanced ((({ g with accountManager := m } : GatewayContext).track connId no.orderId token
      (decide (no.side = .buy))).route connId (.newOrder no) token routed).1 := by
  obtain ⟨-,-,htoken,-⟩ := AccountManager.checkAndReserveOrder_ok hok
  refine h.route (accountManager_track _ _ _ _ _) (.newOrder no) token routed _ (tentative_order hok) fun a => ?_
  -- what the overwritten entry held is what the account gets back
  have hold : ((g.pendingOrders[no.orderId]?).elim 0 (held a)) = returned token routed a := by
    cases hmd : g.pendingOrders[no.orderId]? with
    | none =>
      simp only [KeepsTokens,hmd] at hk
      rw [Option.elim_none,returned,htoken]
      cases hk with
      | inl hr => rw [if_pos hr]
      | inr hzero => simp [hzero]
    | some md =>
      simp only [KeepsTokens,hmd] at hk
      rw [Option.elim_some,held,returned,htoken]
      cases routed with
      | true =>
        simp only [if_true] at hk ⊢
        rw [hk,ite_self]
      | false =>
        simp only [Bool.false_eq_true,if_false] at hk ⊢
        obtain ⟨hamount,hacct⟩ := hk
        rw [hamount]
        cases hacct with
        | inl hsame => rw [hsame]
        | inr hzero => simp [hzero]
  rw [pendingOrders_track,reserved_insert,← hold,held,htoken]
  simp only
  rw [sub_add_eq_add_sub,add_sub_assoc]

section Replacing
variable {r : Replace} {routed : Bool} {md : OrderMetadata} {token : ReservationToken} {m : AccountManager}
  (hmd : g.pendingOrders[r.orderId]? = some md)
  (hok : g.accountManager.adjustReservation md.reservationToken r = .ok (token,m))
  (hk : g.KeepsTokens connId routed (.replace r))
include hmd hok hk

theorem unknown_balanced (h : Balanced g) (hl : g.localOrder connId r.orderId = none) :
    Balanced (({ g with accountManager := m } : GatewayContext).route connId (.replace r) token routed).1 := by
  obtain ⟨-,-,htoken,-⟩ := AccountManager.adjustReservation_ok hok
  have hk' := hk md hmd
  rw [hl] at hk'
  refine h.route rfl (.replace r) token routed _ (tentative_replace hok) fun a => ?_
  have hzero : (if r.accountId = a then r.newPrice*r.newQty-md.reservationToken.amount else 0) =
      returned token routed a := by
    rw [returned,htoken]
    cases routed with
    | true =>
      simp only [if_true] at hk' ⊢
      rw [hk',sub_self,ite_self]
    | false =>
      simp only [Bool.false_eq_true,if_false] at hk' ⊢
      rw [hk',sub_zero]
  rw [hzero,sub_self,add_zero]

theorem known_balanced (h : Balanced g) {x : ReservationToken × Bool × PendingOperation}
    (hl : g.localOrder connId r.orderId = some x) :
    Balanced ((({ g with accountManager := m } : GatewayContext).track connId r.orderId token x.2.1).route connId
      (.replace r) token routed).1 := by
  obtain ⟨-,-,htoken,-⟩ := AccountManager.adjustReservation_ok hok
  have hk' := hk md hmd
  rw [hl] at hk'
  obtain ⟨hacct,hback⟩ := hk'
  refine h.route (accountManager_track _ _ _ _ _) (.replace r) token routed _ (tentative_replace hok) fun a => ?_
  have hold : held a md = if r.accountId = a then md.reservationToken.amount else 0 := by
    rw [held]
    cases hacct with
    | inl hsame => rw [hsame]
    | inr hzero => rw [hzero,ite_self,ite_self]
  have hnone : returned token routed a = 0 := by
    rw [returned,htoken]
    cases hback with
    | inl hr => rw [if_pos hr]
    | inr hzero => simp [hzero]
  rw [pendingOrders_track,reserved_insert,hmd,Option.elim_some,hold,hnone,held,htoken,sub_zero]
  simp only
  split_ifs with ha
  · rw [sub_add_eq_add_sub,add_sub_assoc]
  · rw [sub_zero]

end Replacing

theorem Balanced.congr (h : Balanced g)
    (ha : ∀ a : AccountId, g'.accountManager.accounts[a]? = g.accountManager.accounts[a]?)
    (hp : ∀ a, reserved g'.pendingOrders a = reserved g.pendingOrders a) : Balanced g' := by
  intro a s hs
  rw [ha] at hs
  rw [hp,h a s hs]

theorem Balanced.cancel (h : Balanced g) (c : Cancel) (routed : Bool) : Balanced (g.handleCancel connId c routed).1 := by
  cases routed with
  | true =>
    refine h.congr (fun a => ?_) fun a => ?_
    · simp [handleCancel]
    · simp [handleCancel,reserved_withOperation]
  | false =>
    refine h.congr (fun a => ?_) fun a => ?_
    · simp [handleCancel,GatewayContext.reject]
    · simp [handleCancel,GatewayContext.reject,reserved_withOperation]

theorem Balanced.handleCommand (h : Balanced g) {cmd : Command} {routed : Bool}
    (hk : g.ReachesRouter connId cmd → g.KeepsTokens connId routed cmd) :
    Balanced (g.handleCommand connId cmd routed).1 := by
  by_cases hcarries : g.Carries connId cmd routed
  · have hcarried := hcarries.carriedOut
    have hs := hcarries.session
    generalize g.handleCommand connId cmd routed = handled at hcarried ⊢
    cases hcarried with
    | ordered no token m hok => exact ordered_balanced h hok (hk ⟨hs,_,hok⟩)
    | cancelling c => exact h.cancel c routed
    | unknown r md token m hmd hok hl => exact unknown_balanced hmd hok (hk ⟨hs,md,_,hmd,hok⟩) h hl
    | known r md token m x hmd hok hl => exact known_balanced hmd hok (hk ⟨hs,md,_,hmd,hok⟩) h hl
    | limits srl hr =>
      subst hr
      exact h.congr (fun _ => rfl) fun _ => rfl
  · have hquiet := handleCommand_quiet hcarries
    exact h.congr hquiet.accounts fun a => by rw [hquiet.pending]

/-! ### Events and runs -/

/-- The second settlement of a token that holds nothing. -/
theorem Balanced.settleTwice (h : Balanced g) (f : Fill) {id : OrderId} {md : OrderMetadata}
    (hzero : md.reservationToken.amount = 0) (hnone : g.pendingOrders[id]? = none) :
    Balanced (g.settleFill f id (some md)) := by
  intro a s' hs'
  simp only [GatewayContext.settleFill,AccountManager.accounts_applyFill,OrdMap.erase_of_get_none hnone] at hs' ⊢
  obtain ⟨s,hs,rfl⟩ := Option.map_eq_some_iff.mp hs'
  rw [← h a s hs]
  split_ifs
  · simp only [AccountManager.fillAccount,hzero,sub_zero]
  · rfl

theorem Balanced.event (h : Balanced g) {event : Event} (hk : g.KeepsBalance (.event connId event)) :
    Balanced (g.handleEngineEvent connId event).1 := by
  cases event with
  | fill f =>
    by_cases hsame : f.makerOrderId = f.takerOrderId
    · have hfirst := h.settleFill f (rfl : g.pendingOrders[f.makerOrderId]? = _)
      simp only [GatewayContext.handleEngineEvent,handleFill,← hsame]
      cases hmd : g.pendingOrders[f.makerOrderId]? with
      | none => exact h
      | some md =>
        rw [hmd] at hfirst
        refine hfirst.settleTwice f (hk hsame md hmd) ?_
        rw [get_settleFill _ _ _ _ fun hn => absurd hn (by simp),if_pos rfl]
    · refine h.handleEngineEvent connId fun f' hf' => ?_
      rwa [← Event.fill.inj hf']
  | _ => exact h.handleEngineEvent connId fun f' hf' => by cases hf'

theorem Balanced.step (h : Balanced g) {s : Step} (hk : g.KeepsBalance s) : Balanced (g.step s) := by
  cases s with
  | connect decodeCommand => exact h.congr (fun _ => rfl) fun _ => rfl
  | disconnect connId => exact h.congr (fun _ => rfl) fun _ => rfl
  | event connId event => exact h.event hk
  | frame connId bytes routes =>
    simp only [GatewayContext.step,handleFrame]
    cases hcmd : g.decoded connId bytes with
    | none => exact h
    | some cmd => exact h.handleCommand (hk cmd hcmd)

theorem Run.balanced {g₀ : GatewayContext} (h : Run g₀ KeepsBalance g) (h₀ : Balanced g₀) : Balanced g :=
  Machine.Reaches.keeps h h₀ fun _ _ _ hbalanced ha => hbalanced.step ha

/-- The sum of the tokens without wrapping. -/
def reservedTotal (pending : OrdMap OrderId OrderMetadata) (a : AccountId) : ℤ :=
  OrdMap.sumEntries (fun _ md => (held a md).toInt) pending

theorem reserved_eq_ofInt (pending : OrdMap OrderId OrderMetadata) (a : AccountId) :
    reserved pending a = Int64.ofInt (reservedTotal pending a) := by
  rw [reservedTotal,OrdMap.sumEntries,← Int64.sum_ofInt]
  simp only [Int64.ofInt_toInt]
  rfl

/-- In a run whose steps keep the balance every account reserves the sum of its tokens. Sums wrap as `i64`
does; a sum that fits is the sum of the integers. -/
theorem Run.reserved_consistent {g₀ : GatewayContext} (h : Run g₀ KeepsBalance g) (hnone : g₀.pendingOrders = ∅)
    (hfree : ∀ (a : AccountId) (s : AccountState), g₀.accountManager.accounts[a]? = some s → s.tentativeReserved = 0)
    {a : AccountId} {s : AccountState}
    (hs : g.accountManager.accounts[a]? = some s) : s.tentativeReserved = reserved g.pendingOrders a ∧
      (-2^63 ≤ reservedTotal g.pendingOrders a → reservedTotal g.pendingOrders a < 2^63 →
        s.tentativeReserved.toInt = reservedTotal g.pendingOrders a) := by
  have h₀ : Balanced g₀ := fun a s hs => by rw [hfree a s hs,hnone,reserved,OrdMap.sumEntries_empty]
  have heq := h.balanced h₀ a s hs
  refine ⟨heq,fun hl hu => ?_⟩
  rw [heq,reserved_eq_ofInt,Int64.toInt_ofInt_of_le hl hu]

/-- A gateway with one account and nothing tracked. -/
def opening : GatewayContext where
  accountManager := AccountManager.new.createAccount 1 1000
  apiKeys := (∅ : OrdMap String AccountId).insert "test-key-1" 1
  sessions := ∅
  pendingOrders := ∅
  clients := ∅
  nextConnId := 1

def connectBinary : Step := .connect fun bytes => (BinaryCodec.decodeCommand bytes).toOption

def send (connId : UInt64) (cmd : Command) : Step := .frame connId (BinaryCodec.encodeCommand cmd) fun _ => true

/-- A client logs in on connection 1 and buys 5 for 10 each. -/
def bought : GatewayContext :=
  ((opening.step connectBinary).step (send 1 (.authenticate ⟨"test-key-1"⟩))).step
    (send 1 (.newOrder ⟨1,3,1,1,.buy,10,5,.gtc,⟨false⟩⟩))

theorem KeepsBalance.sent {cmd : Command} (hcmd : g.decoded connId (BinaryCodec.encodeCommand cmd) = some cmd)
    (hk : g.KeepsTokens connId (((commandSymbolId cmd).map fun _ => true).getD false) cmd) :
    g.KeepsBalance (send connId cmd) := by
  intro cmd' hcmd' _
  obtain rfl := Option.some.inj (hcmd.symm.trans hcmd')
  exact hk

theorem opening_free {a : AccountId} {s : AccountState} (hs : opening.accountManager.accounts[a]? = some s) :
    s.tentativeReserved = 0 := by
  change ((∅ : OrdMap AccountId AccountState).insert 1 _)[a]? = some s at hs
  rw [OrdMap.get_insert] at hs
  split_ifs at hs
  · rw [← Option.some.inj hs]; rfl
  · simp at hs

theorem bought_run : Run opening KeepsBalance bought := by
  have hlogin : (opening.step connectBinary).KeepsBalance (send 1 (.authenticate ⟨"test-key-1"⟩)) :=
    .sent (by decide +kernel) trivial
  refine ((Run.start.step connectBinary trivial).step _ hlogin).step _ (.sent (by decide +kernel) ?_)
  have hnew : ((opening.step connectBinary).step (send 1 (.authenticate ⟨"test-key-1"⟩))).pendingOrders[(3 : OrderId)]? =
      none := by decide +kernel
  simp only [KeepsTokens,hnew]
  exact Or.inl rfl

/-- The client replaces its order on the same connection, and the engine's answer arrives. -/
def replaced : GatewayContext :=
  (bought.step (send 1 (.replace ⟨2,3,1,1,10,8⟩))).step (.event 1 (.ack ⟨1,2,3⟩))

theorem replaced_consistent : Run opening KeepsBalance replaced ∧ reserved replaced.pendingOrders 1 = 80 ∧
    ∃ s, replaced.accountManager.accounts[(1 : AccountId)]? = some s ∧
      s.tentativeReserved = reserved replaced.pendingOrders 1 ∧ s.tentativeReserved.toInt = 80 := by
  have hlocal : (bought.localOrder 1 3).isSome := by decide +kernel
  have hrun : Run opening KeepsBalance replaced := by
    refine (bought_run.step _ (.sent (by decide +kernel) ?_)).step _ trivial
    intro md hmd
    obtain ⟨x,hx⟩ := Option.isSome_iff_exists.mp hlocal
    have hacct : bought.pendingOrders[(3 : OrderId)]?.map (fun md => md.reservationToken.accountId) = some 1 := by
      decide +kernel
    simp only [hx]
    rw [hmd,Option.map_some] at hacct
    exact ⟨Or.inl (Option.some.inj hacct),Or.inl rfl⟩
  have hsum : reservedTotal replaced.pendingOrders 1 = 80 := by decide +kernel
  obtain ⟨s,hs⟩ := Option.isSome_iff_exists.mp
    (by decide +kernel : (replaced.accountManager.accounts[(1 : AccountId)]?).isSome)
  obtain ⟨heq,hexact⟩ := hrun.reserved_consistent rfl (fun _ _ => opening_free) hs
  refine ⟨hrun,by decide +kernel,s,hs,heq,?_⟩
  rw [hexact (by rw [hsum]; decide) (by rw [hsum]; decide),hsum]

/-- The client comes back on a new connection and replaces its order from there. -/
def reconnected : GatewayContext :=
  (((bought.step (.disconnect 1)).step connectBinary).step (send 2 (.authenticate ⟨"test-key-1"⟩))).step
    (send 2 (.replace ⟨2,3,1,1,10,8⟩))

theorem NamesAccounts.sent {cmd : Command} (hcmd : g.decoded connId (BinaryCodec.encodeCommand cmd) = some cmd)
    (hname : (commandAccountId cmd).all fun a => (g.accountManager.accounts[a]?).isSome) :
    g.NamesAccounts (send connId cmd) := by
  intro cmd' hcmd' a ha
  obtain rfl := Option.some.inj (hcmd.symm.trans hcmd')
  rw [ha] at hname
  exact hname

/-- The account reserves 80, but its order still holds a token of 50. -/
theorem reconnected_drifts : Run opening NamesAccounts reconnected ∧ opening.pendingOrders = ∅ ∧
    (∀ (a : AccountId) (s : AccountState), opening.accountManager.accounts[a]? = some s → s.tentativeReserved = 0) ∧
    (reconnected.accountManager.accounts[(1 : AccountId)]?).map AccountState.tentativeReserved = some 80 ∧
    reserved reconnected.pendingOrders 1 = 50 := by
  refine ⟨?_,rfl,fun _ _ => opening_free,by decide +kernel,by decide +kernel⟩
  have hlogin : (opening.step connectBinary).NamesAccounts (send 1 (.authenticate ⟨"test-key-1"⟩)) :=
    .sent (by decide +kernel) (by decide +kernel)
  have hbought : Run opening NamesAccounts bought :=
    ((Run.start.step connectBinary trivial).step _ hlogin).step _ (.sent (by decide +kernel) (by decide +kernel))
  have hback := (hbought.step (.disconnect 1) trivial).step connectBinary trivial
  have hlogin' := hback.step (send 2 (.authenticate ⟨"test-key-1"⟩)) (.sent (by decide +kernel) (by decide +kernel))
  exact hlogin'.step _ (.sent (by decide +kernel) (by decide +kernel))

end GatewayContext
end Gateway
end HighPerfTrading
