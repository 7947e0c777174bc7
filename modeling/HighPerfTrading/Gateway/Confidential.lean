import HighPerfTrading.Gateway.Consistency

/-! What a connection learns of an account. Two gateways that differ in the state of one account alone answer
every frame alike, as long as the frame does not ask about that account. -/
namespace HighPerfTrading
namespace Gateway
namespace AccountManager
variable {b : AccountId} {m m' : AccountManager}

/-- The same but for the positions, limits and balances of one account. -/
structure AgreeExcept (b : AccountId) (m m' : AccountManager) : Prop where
  others : ∀ a : AccountId, a ≠ b → m.accounts[a]? = m'.accounts[a]?
  present : (m.accounts[b]?).isSome = (m'.accounts[b]?).isSome
  seq : m.nextGatewaySeq = m'.nextGatewaySeq

namespace AgreeExcept

theorem nextSeq (h : AgreeExcept b m m') : m.nextSeq.1 = m'.nextSeq.1 ∧ AgreeExcept b m.nextSeq.2 m'.nextSeq.2 :=
  ⟨h.seq,h.others,h.present,congrArg (· + 1) h.seq⟩

/-- Another account gets the same new state. -/
theorem put (h : AgreeExcept b m m') {a : AccountId} (ha : a ≠ b) (s : AccountState) :
    AgreeExcept b (m.put a s) (m'.put a s) := by
  refine ⟨fun c hc => ?_,?_,h.seq⟩
  · rw [accounts_put,accounts_put,h.others c hc]
  · rw [accounts_put,accounts_put,if_neg ha,if_neg ha,h.present]

/-- A release is the same change in both, of any account. -/
theorem releaseReservation (h : AgreeExcept b m m') (token : ReservationToken) :
    AgreeExcept b (m.releaseReservation token) (m'.releaseReservation token) := by
  refine ⟨fun c hc => ?_,?_,?_⟩
  · rw [accounts_releaseReservation,accounts_releaseReservation,h.others c hc]
  · rw [accounts_releaseReservation,accounts_releaseReservation,Option.isSome_map,Option.isSome_map,h.present]
  · have hseq : ∀ n : AccountManager, (n.releaseReservation token).nextGatewaySeq = n.nextGatewaySeq := by
      intro n
      unfold AccountManager.releaseReservation
      cases n.accounts[token.accountId]? <;> rfl
    rw [hseq,hseq,h.seq]

end AgreeExcept

/-- Two reservations with one outcome: the same violation, or the same token and accounts that agree. -/
def SameOutcome (b : AccountId) (r r' : Except RiskViolation (ReservationToken × AccountManager)) : Prop :=
  (∃ violation, r = .error violation ∧ r' = .error violation) ∨
    ∃ token m m', r = .ok (token,m) ∧ r' = .ok (token,m') ∧ AgreeExcept b m m'

namespace AgreeExcept

theorem checkAndReserveOrder (h : AgreeExcept b m m') {order : NewOrder} (ha : order.accountId ≠ b) :
    SameOutcome b (m.checkAndReserveOrder order) (m'.checkAndReserveOrder order) := by
  unfold AccountManager.checkAndReserveOrder
  rw [← h.others order.accountId ha]
  cases hs : m.accounts[order.accountId]? with
  | none => exact Or.inl ⟨_,rfl,rfl⟩
  | some s =>
    simp only
    split_ifs
    · exact Or.inl ⟨_,rfl,rfl⟩
    · exact Or.inl ⟨_,rfl,rfl⟩
    · exact Or.inl ⟨_,rfl,rfl⟩
    · exact Or.inl ⟨_,rfl,rfl⟩
    · exact Or.inr ⟨_,_,_,rfl,rfl,h.put ha _⟩

theorem adjustReservation (h : AgreeExcept b m m') (old : ReservationToken) {replace : Replace}
    (ha : replace.accountId ≠ b) :
    SameOutcome b (m.adjustReservation old replace) (m'.adjustReservation old replace) := by
  unfold AccountManager.adjustReservation
  rw [← h.others replace.accountId ha]
  cases hs : m.accounts[replace.accountId]? with
  | none => exact Or.inl ⟨_,rfl,rfl⟩
  | some s =>
    simp only
    split_ifs
    · exact Or.inl ⟨_,rfl,rfl⟩
    · exact Or.inl ⟨_,rfl,rfl⟩
    · exact Or.inr ⟨_,_,_,rfl,rfl,h.put ha _⟩

end AgreeExcept
end AccountManager

namespace GatewayContext
variable {b : AccountId} {g : GatewayContext} {m : AccountManager} {connId : UInt64}

/-- The same gateway with other accounts. -/
def withAccounts (g : GatewayContext) (m : AccountManager) : GatewayContext := { g with accountManager := m }

/-- Two gateways that differ in the positions, limits and balances of one account alone. -/
def AgreeExcept (b : AccountId) (g g' : GatewayContext) : Prop :=
  ∃ m, AccountManager.AgreeExcept b g.accountManager m ∧ g' = g.withAccounts m

/-- The same command and responses, and states that agree. -/
def SameResponse (b : AccountId) (r r' : Handled) : Prop := AgreeExcept b r.1 r'.1 ∧ r.2 = r'.2

theorem reject_same (h : AccountManager.AgreeExcept b g.accountManager m) (clientSeq : UInt64) (orderId : Option OrderId)
    (reason : RejectReason) :
    SameResponse b (g.reject clientSeq orderId reason) ((g.withAccounts m).reject clientSeq orderId reason) := by
  obtain ⟨hseq,hagree⟩ := h.nextSeq
  refine ⟨⟨m.nextSeq.2,hagree,rfl⟩,?_⟩
  change (none,[Event.reject ⟨g.accountManager.nextSeq.1,_,_,_⟩]) = (none,[Event.reject ⟨m.nextSeq.1,_,_,_⟩])
  rw [hseq]

/-! ### Changes of the maps do not look at the accounts -/

theorem withAccounts_updateLocal (g : GatewayContext) (m : AccountManager) (connId : UInt64)
    (f : OrdMap OrderId (ReservationToken × Bool × PendingOperation) →
      OrdMap OrderId (ReservationToken × Bool × PendingOperation)) :
    (g.withAccounts m).updateLocal connId f = (g.updateLocal connId f).withAccounts m := by
  unfold updateLocal
  cases hc : g.clients[connId]? with
  | none => simp only [withAccounts,hc]
  | some client => simp only [withAccounts,hc]

theorem withAccounts_track (g : GatewayContext) (m : AccountManager) (connId : UInt64) (orderId : OrderId)
    (token : ReservationToken) (isBuy : Bool) :
    (g.withAccounts m).track connId orderId token isBuy = (g.track connId orderId token isBuy).withAccounts m := by
  unfold track
  rw [withAccounts_updateLocal]
  rfl

theorem withAccounts_setOperation (g : GatewayContext) (m : AccountManager) (connId : UInt64) (orderId : OrderId)
    (op : PendingOperation) :
    (g.withAccounts m).setOperation connId orderId op = (g.setOperation connId orderId op).withAccounts m := by
  unfold setOperation
  have hl : (g.withAccounts m).localOrder connId orderId = g.localOrder connId orderId := rfl
  rw [hl]
  cases g.localOrder connId orderId with
  | none => rfl
  | some x =>
    simp only [withAccounts_updateLocal]
    rfl

/-! ### One frame -/

theorem route_same (h : AccountManager.AgreeExcept b g.accountManager m) (connId : UInt64) (cmd : Command)
    (token : ReservationToken) (routed : Bool) :
    SameResponse b (g.route connId cmd token routed) ((g.withAccounts m).route connId cmd token routed) := by
  obtain ⟨hseq,hagree⟩ := h.nextSeq
  cases routed with
  | true =>
    refine ⟨⟨m.nextSeq.2,hagree,rfl⟩,?_⟩
    change (some (ExecuteCommand.mk cmd connId ⟨_,_,g.accountManager.nextSeq.1⟩),([] : List Event)) =
      (some (ExecuteCommand.mk cmd connId ⟨_,_,m.nextSeq.1⟩),[])
    rw [hseq]
  | false =>
    have hfreed := hagree.releaseReservation token
    cases cmd with
    | newOrder order =>
      have hlocal := withAccounts_updateLocal
        { g.bumpSeq with accountManager := g.bumpSeq.accountManager.releaseReservation token }
        (m.nextSeq.2.releaseReservation token) connId (·.erase order.orderId)
      have hagree' : AccountManager.AgreeExcept b (updateLocal { g.bumpSeq with
          accountManager := g.bumpSeq.accountManager.releaseReservation token } connId
          (·.erase order.orderId)).accountManager (m.nextSeq.2.releaseReservation token) := by
        rw [accountManager_updateLocal]
        exact hfreed
      have hsame := reject_same hagree' order.clientSeq (some order.orderId) .overloaded
      rw [← hlocal] at hsame
      exact hsame
    | cancel c => exact reject_same hfreed _ _ _
    | replace r => exact reject_same hfreed _ _ _
    | setRiskLimits srl => exact reject_same hfreed _ _ _
    | queryAccount qa => exact reject_same hfreed _ _ _
    | authenticate auth => exact reject_same hfreed _ _ _

theorem track_route_same {m₁ m₂ : AccountManager} (h : AccountManager.AgreeExcept b m₁ m₂) (cmd : Command)
    {orderId : OrderId} (token : ReservationToken) (routed isBuy : Bool) :
    SameResponse b (((g.withAccounts m₁).track connId orderId token isBuy).route connId cmd token routed)
      (((g.withAccounts m₂).track connId orderId token isBuy).route connId cmd token routed) := by
  have hagree : AccountManager.AgreeExcept b ((g.withAccounts m₁).track connId orderId token isBuy).accountManager m₂ := by
    rw [accountManager_track]
    exact h
  have hsame := route_same hagree connId cmd token routed
  rw [← withAccounts_track] at hsame
  exact hsame

/-- The accounts named in the query, or in an order that an authenticated connection places or replaces. -/
def AsksAbout (g : GatewayContext) (connId : UInt64) (b : AccountId) : Command → Prop
  | .queryAccount query => query.accountId = b
  | .newOrder order => order.accountId = b ∧ (g.sessions[connId]?).isSome
  | .replace replace => replace.accountId = b ∧ (g.sessions[connId]?).isSome ∧
    (g.pendingOrders[replace.orderId]?).isSome
  | _ => False

theorem queryAccount_same (h : AccountManager.AgreeExcept b g.accountManager m) {query : QueryAccount}
    (ha : query.accountId ≠ b) :
    SameResponse b (g.handleQueryAccount query) ((g.withAccounts m).handleQueryAccount query) := by
  have hget : (g.withAccounts m).accountManager.accounts[query.accountId]? =
      g.accountManager.accounts[query.accountId]? := (h.others query.accountId ha).symm
  unfold handleQueryAccount
  rw [hget]
  cases g.accountManager.accounts[query.accountId]? with
  | none => exact reject_same h _ _ _
  | some state =>
    obtain ⟨hseq,hagree⟩ := h.nextSeq
    refine ⟨⟨m.nextSeq.2,hagree,rfl⟩,?_⟩
    change (none,[Event.accountState ⟨g.accountManager.nextSeq.1,_,_,_,_,_⟩]) =
      (none,[Event.accountState ⟨m.nextSeq.1,_,_,_,_,_⟩])
    rw [hseq]

theorem authenticate_same (h : AccountManager.AgreeExcept b g.accountManager m) (auth : Authenticate) :
    SameResponse b (g.handleAuthenticate connId auth) ((g.withAccounts m).handleAuthenticate connId auth) := by
  have hkeys : (g.withAccounts m).apiKeys = g.apiKeys := rfl
  unfold handleAuthenticate
  rw [hkeys]
  cases g.apiKeys[auth.apiKey]? with
  | none => exact ⟨⟨m,h,rfl⟩,rfl⟩
  | some accountId => exact ⟨⟨m,h,rfl⟩,rfl⟩

theorem cancel_same (h : AccountManager.AgreeExcept b g.accountManager m) (c : Cancel) (routed : Bool) :
    SameResponse b (g.handleCancel connId c routed) ((g.withAccounts m).handleCancel connId c routed) := by
  have hmark := withAccounts_setOperation g m connId c.orderId .cancelPending
  have hacct := accountManager_setOperation g connId c.orderId .cancelPending
  obtain ⟨hseq,hagree⟩ := h.nextSeq
  unfold handleCancel
  rw [hmark]
  generalize g.setOperation connId c.orderId .cancelPending = g₁ at hacct ⊢
  rw [← hacct] at hseq hagree
  cases routed with
  | true =>
    refine ⟨⟨m.nextSeq.2,hagree,rfl⟩,?_⟩
    change (some (ExecuteCommand.mk _ connId ⟨_,_,g₁.accountManager.nextSeq.1⟩),([] : List Event)) =
      (some (ExecuteCommand.mk _ connId ⟨_,_,m.nextSeq.1⟩),[])
    rw [hseq]
  | false =>
    have hback := withAccounts_setOperation g₁.bumpSeq m.nextSeq.2 connId c.orderId .active
    have hagree' : AccountManager.AgreeExcept b
        (g₁.bumpSeq.setOperation connId c.orderId .active).accountManager m.nextSeq.2 := by
      rw [accountManager_setOperation]
      exact hagree
    have hsame := reject_same hagree' c.clientSeq (some c.orderId) .overloaded
    rw [← hback] at hsame
    exact hsame

theorem replace_same (h : AccountManager.AgreeExcept b g.accountManager m) {r : Replace} (routed : Bool)
    (ha : r.accountId = b → g.pendingOrders[r.orderId]? = none) :
    SameResponse b (g.handleReplace connId r routed) ((g.withAccounts m).handleReplace connId r routed) := by
  cases hmd : g.pendingOrders[r.orderId]? with
  | none =>
    have hmd' : (g.withAccounts m).pendingOrders[r.orderId]? = none := hmd
    simp only [handleReplace,hmd,hmd']
    exact reject_same h _ _ _
  | some md =>
    have hne : r.accountId ≠ b := by
      intro heq
      rw [ha heq] at hmd
      cases hmd
    rcases h.adjustReservation md.reservationToken hne with ⟨violation,herr,herr'⟩ | ⟨token,m₁,m₂,hok,hok',hagree⟩
    · rw [replace_refused connId routed hmd herr,replace_refused (g := g.withAccounts m) connId routed hmd herr']
      exact reject_same h _ _ _
    · have hlocal : (g.withAccounts m).localOrder connId r.orderId = g.localOrder connId r.orderId := rfl
      rw [replace_reserved connId routed hmd hok,replace_reserved (g := g.withAccounts m) connId routed hmd hok',hlocal]
      cases g.localOrder connId r.orderId with
      | none => exact route_same (g := g.withAccounts m₁) hagree connId (.replace r) token routed
      | some x => exact track_route_same hagree (.replace r) token routed x.2.1

theorem newOrder_same (h : AccountManager.AgreeExcept b g.accountManager m) {order : NewOrder} (routed : Bool)
    (ha : order.accountId ≠ b) :
    SameResponse b (g.handleReserving connId (.newOrder order) routed)
      ((g.withAccounts m).handleReserving connId (.newOrder order) routed) := by
  rcases h.checkAndReserveOrder ha with ⟨violation,herr,herr'⟩ | ⟨token,m₁,m₂,hok,hok',hagree⟩
  · rw [newOrder_refused connId routed herr,newOrder_refused (g := g.withAccounts m) connId routed herr']
    exact reject_same h _ _ _
  · rw [newOrder_reserved connId routed hok,newOrder_reserved (g := g.withAccounts m) connId routed hok']
    exact track_route_same hagree (.newOrder order) token routed (decide (order.side = Side.buy))

/-- A command that does not ask about the account is answered alike. -/
theorem handleCommand_same (h : AccountManager.AgreeExcept b g.accountManager m) {cmd : Command} (routed : Bool)
    (hasks : ¬ g.AsksAbout connId b cmd) :
    SameResponse b (g.handleCommand connId cmd routed) ((g.withAccounts m).handleCommand connId cmd routed) := by
  have hsessions : (g.withAccounts m).sessions = g.sessions := rfl
  unfold handleCommand
  rw [hsessions]
  cases cmd with
  | queryAccount query => exact queryAccount_same h hasks
  | authenticate auth => exact authenticate_same h auth
  | cancel c =>
    simp only
    split_ifs
    · exact reject_same h _ _ _
    · exact cancel_same h c routed
  | replace r =>
    simp only
    split_ifs with hsession
    · exact reject_same h _ _ _
    · refine replace_same h routed fun heq => ?_
      rw [← Option.not_isSome_iff_eq_none]
      exact fun hmd => hasks ⟨heq,by simpa using hsession,hmd⟩
  | newOrder order =>
    simp only
    split_ifs with hsession
    · exact reject_same h _ _ _
    · exact newOrder_same h routed fun heq => hasks ⟨heq,by simpa using hsession⟩
  | setRiskLimits srl =>
    simp only
    split_ifs
    · exact reject_same h _ _ _
    · exact route_same h connId (.setRiskLimits srl) _ routed

/-! ### A connection's frames -/

/-- A frame, and which engines can be reached when it is handled. -/
abbrev Frame := List UInt8 × (SymbolId → Bool)

/-- What the read loop of a connection sends back. -/
def clientReadLoop (connId : UInt64) : GatewayContext → List Frame → List Event
  | _,[] => []
  | g,f::frames => (g.handleFrame connId f.1 f.2).2.2 ++ clientReadLoop connId (g.handleFrame connId f.1 f.2).1 frames

/-- No frame asks about the account. -/
def NeverAsks (connId : UInt64) (b : AccountId) : GatewayContext → List Frame → Prop
  | _,[] => True
  | g,f::frames => (∀ cmd, g.decoded connId f.1 = some cmd → ¬ g.AsksAbout connId b cmd) ∧
    NeverAsks connId b (g.handleFrame connId f.1 f.2).1 frames

theorem handleFrame_same (h : AccountManager.AgreeExcept b g.accountManager m) {f : Frame}
    (hasks : ∀ cmd, g.decoded connId f.1 = some cmd → ¬ g.AsksAbout connId b cmd) :
    SameResponse b (g.handleFrame connId f.1 f.2) ((g.withAccounts m).handleFrame connId f.1 f.2) := by
  have hdecoded : (g.withAccounts m).decoded connId f.1 = g.decoded connId f.1 := rfl
  unfold handleFrame
  rw [hdecoded]
  cases hcmd : g.decoded connId f.1 with
  | none => exact ⟨⟨m,h,rfl⟩,rfl⟩
  | some cmd => exact handleCommand_same h _ (hasks cmd hcmd)

/-- Whatever the positions, limits and balances of an account are, a connection that never asks about it is sent
the same responses. -/
theorem clientReadLoop_same {g' : GatewayContext} (h : AgreeExcept b g g') {frames : List Frame}
    (hasks : g.NeverAsks connId b frames) : clientReadLoop connId g frames = clientReadLoop connId g' frames := by
  induction frames generalizing g g' with
  | nil => rfl
  | cons f frames ih =>
    obtain ⟨m,hagree,rfl⟩ := h
    obtain ⟨hnext,hresponse⟩ := handleFrame_same hagree hasks.1
    rw [clientReadLoop,clientReadLoop,hresponse,ih hnext hasks.2]

theorem AgreeExcept.put {s : AccountState} (hb : (g.accountManager.accounts[b]?).isSome) :
    AgreeExcept b g (g.withAccounts (g.accountManager.put b s)) := by
  refine ⟨g.accountManager.put b s,⟨fun a ha => ?_,?_,rfl⟩,rfl⟩
  · rw [AccountManager.accounts_put,if_neg (Ne.symm ha)]
  · rw [AccountManager.accounts_put,if_pos rfl,hb]
    rfl

/-- A connection, not yet authenticated, to a gateway with accounts 1 and 2. -/
def visited : GatewayContext :=
  { opening.step connectBinary with accountManager := opening.accountManager.createAccount 2 500 }

/-- The state of account 2 once it has bought. -/
def holding : AccountState :=
  { AccountState.new 2 400 with positions := (∅ : OrdMap SymbolId Position).insert 1 ⟨5,20,0⟩ }

def frame (cmd : Command) : Frame := (BinaryCodec.encodeCommand cmd,fun _ => true)

/-- A refused order, a login as account 1, and an order of account 1. -/
theorem visit_same :
    clientReadLoop 1 visited [frame (.newOrder ⟨1,3,2,1,.buy,10,5,.gtc,⟨false⟩⟩),frame (.authenticate ⟨"test-key-1"⟩),
        frame (.newOrder ⟨2,3,1,1,.buy,10,5,.gtc,⟨false⟩⟩)] =
      clientReadLoop 1 (visited.withAccounts (visited.accountManager.put 2 holding))
        [frame (.newOrder ⟨1,3,2,1,.buy,10,5,.gtc,⟨false⟩⟩),frame (.authenticate ⟨"test-key-1"⟩),
          frame (.newOrder ⟨2,3,1,1,.buy,10,5,.gtc,⟨false⟩⟩)] := by
  have hasks : ∀ (g : GatewayContext) (cmd : Command), g.decoded 1 (frame cmd).1 = some cmd → ¬ g.AsksAbout 1 2 cmd →
      ∀ cmd', g.decoded 1 (frame cmd).1 = some cmd' → ¬ g.AsksAbout 1 2 cmd' := by
    intro g cmd hcmd hnot cmd' hcmd'
    obtain rfl := Option.some.inj (hcmd.symm.trans hcmd')
    exact hnot
  refine clientReadLoop_same (AgreeExcept.put (b := 2) (by decide +kernel)) ⟨?_,?_,?_,trivial⟩
  · refine hasks _ _ (by decide +kernel) fun h => ?_
    have hout : (visited.sessions[(1 : UInt64)]?).isSome = false := by decide +kernel
    rw [h.2] at hout
    cases hout
  · exact hasks _ _ (by decide +kernel) id
  · exact hasks _ _ (by decide +kernel) fun h => absurd h.1 (by decide)

/-- A connection that has never authenticated reads the position of account 2. -/
theorem query_reveals :
    AgreeExcept 2 visited (visited.withAccounts (visited.accountManager.put 2 holding)) ∧
      visited.sessions = ∅ ∧ visited.pendingOrders = ∅ ∧
      clientReadLoop 1 visited [frame (.queryAccount ⟨1,2,1⟩)] ≠
        clientReadLoop 1 (visited.withAccounts (visited.accountManager.put 2 holding)) [frame (.queryAccount ⟨1,2,1⟩)] :=
  ⟨AgreeExcept.put (by decide +kernel),by decide +kernel,rfl,by decide +kernel⟩

end GatewayContext
end Gateway
end HighPerfTrading
