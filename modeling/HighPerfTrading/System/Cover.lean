import HighPerfTrading.System.Provenance

/-! Cover of the live buy orders by the gateway's reservations. A tracked order must cover not only
what is live but every version of the order that is still on its way to the engine. -/
namespace HighPerfTrading
open Gateway Gateway.GatewayContext
namespace System
variable {S : Type} [Slab S Order] {sys : System S} {l : Ledger}

/-- The account and the notional of a buy order as it is live, as it is on its way, or as a
replacement on its way would make it. -/
inductive Version (b : OrderBook S) (queue : List ExecuteCommand) (id : OrderId) : AccountId → ℤ → Prop
  | live (o : Order) (ho : b.get id = some o) (hs : o.side = .buy) :
      Version b queue id o.accountId (o.price.toInt*o.qtyRem.toInt)
  | ordered (x : ExecuteCommand) (no : NewOrder) (hx : x ∈ queue) (hcmd : x.command = .newOrder no)
      (hid : no.orderId = id) (hs : no.side = .buy) :
      Version b queue id no.accountId (no.price.toInt*no.qty.toInt)
  | replacing {acct : AccountId} {n : ℤ} (h : Version b queue id acct n) (x : ExecuteCommand) (r : Replace)
      (hx : x ∈ queue) (hcmd : x.command = .replace r) (hid : r.orderId = id) :
      Version b queue id acct (r.newPrice.toInt*r.newQty.toInt)

/-- The order is a buy that is live or on its way. -/
def Open (sys : System S) (id : OrderId) : Prop := ∃ acct n, Version sys.engine.book sys.toEngine id acct n

def Covered (sys : System S) : Prop :=
  ∀ id acct n, Version sys.engine.book sys.toEngine id acct n → ∃ md, sys.gateway.pendingOrders[id]? = some md ∧
    md.reservationToken.accountId = acct ∧ n ≤ md.reservationToken.amount.toInt

/-- The steps that do not uncover an order. The notional of a new buy fits in 64 bits. An accepted
replacement of an open buy comes from the connection that placed it, for its account, fits, and is
no smaller than any version of the order. An event removes no open buy from the tracked orders. -/
def KeepsCover (sys : System S) : Action → Prop
  | .frame connId bytes _ => ∀ cmd, sys.gateway.decoded connId bytes = some cmd →
      (∀ no, cmd = .newOrder no → no.side = .buy → no.price.toInt*no.qty.toInt < 2^63) ∧
      ∀ r md p, cmd = .replace r → sys.gateway.pendingOrders[r.orderId]? = some md →
        sys.gateway.accountManager.adjustReservation md.reservationToken r = .ok p →
        ∀ acct n, Version sys.engine.book sys.toEngine r.orderId acct n →
          (sys.gateway.localOrder connId r.orderId).isSome ∧ acct = r.accountId ∧
            r.newPrice.toInt*r.newQty.toInt < 2^63 ∧ n ≤ r.newPrice.toInt*r.newQty.toInt
  | .deliver => ∀ c event rest, sys.toGateway = (c,event)::rest →
      ∀ id, sys.gateway.drops event id = true → ¬ sys.Open id
  | _ => True

theorem toInt_mul_of_pos {a b : Int64} (ha : 0 < a) (hb : 0 < b) (h : a.toInt*b.toInt < 2^63) :
    (a*b).toInt = a.toInt*b.toInt := by
  have hab := Int.mul_pos (Int64.pos_iff_toInt.mp ha) (Int64.pos_iff_toInt.mp hb)
  exact Int64.toInt_mul_of_range (by omega) h

theorem notional_mono {p q q' : Int64} (hp : 0 < p) (h : q' ≤ q) : p.toInt*q'.toInt ≤ p.toInt*q.toInt :=
  Int.mul_le_mul_of_nonneg_left (Int64.le_iff_toInt_le.mp h) (Int64.pos_iff_toInt.mp hp).le

/-! ### Versions under the steps -/

namespace Version
variable {b b' : OrderBook S} {queue rest : List ExecuteCommand} {id : OrderId} {acct : AccountId} {n : ℤ}

/-- One more command on its way adds the version of its new order, when no replacement of that is on its way,
or one version to an order that it replaces. -/
theorem of_send {x : ExecuteCommand} (hfresh : ∀ no, x.command = .newOrder no → ∀ y ∈ queue, ∀ r,
    y.command = .replace r → r.orderId ≠ no.orderId) (h : Version b (queue ++ [x]) id acct n) :
    Version b queue id acct n ∨
      (∃ no, x.command = .newOrder no ∧ id = no.orderId ∧ acct = no.accountId ∧ n = no.price.toInt*no.qty.toInt ∧
        no.side = .buy) ∨
      ∃ r, x.command = .replace r ∧ id = r.orderId ∧ n = r.newPrice.toInt*r.newQty.toInt ∧
        ∃ m, Version b queue id acct m := by
  induction h with
  | live o ho hs => exact Or.inl (.live o ho hs)
  | ordered y no hy hcmd hid hs =>
    rcases List.mem_append.mp hy with hy | hy
    · exact Or.inl (.ordered y no hy hcmd hid hs)
    · obtain rfl := List.mem_singleton.mp hy
      exact Or.inr (Or.inl ⟨no,hcmd,hid.symm,rfl,rfl,hs⟩)
  | @replacing acct' _ _ y r hy hcmd hid ih =>
    rcases List.mem_append.mp hy with hy | hy
    · rcases ih with ih | ⟨no,hno,hid',-⟩ | ⟨-,-,-,-,m,hm⟩
      · exact Or.inl (ih.replacing y r hy hcmd hid)
      · exact absurd (hid.trans hid') (hfresh no hno y hy r hcmd)
      · exact Or.inl (hm.replacing y r hy hcmd hid)
    · obtain rfl := List.mem_singleton.mp hy
      refine Or.inr (Or.inr ⟨r,hcmd,hid.symm,rfl,?_⟩)
      rcases ih with ih | ⟨no,hno,-⟩ | ⟨-,-,-,-,hm⟩
      · exact ⟨_,ih⟩
      · rw [hcmd] at hno; cases hno
      · exact hm

/-- The engine makes no version larger. -/
theorem of_engine {e e' : Engine S} {evs : List Event} {x : ExecuteCommand}
    (heff : Engine.Effect e e' evs x.command) (he : OrderBook.Wf e.book)
    (hlive : ∀ id o, e.book.get id = some o → 0 < o.price)
    (hnew : ∀ no, x.command = .newOrder no → 0 < no.price)
    (hrep : ∀ r, x.command = .replace r → 0 < r.newPrice) (h : Version e'.book rest id acct n) :
    ∃ m, Version e.book (x::rest) id acct m ∧ n ≤ m := by
  induction h with
  | live o' ho' hs =>
    cases heff.origin he ho' with
    | stays o ho hshrunk hle =>
      have hacct : o'.accountId = o.accountId := by rw [hshrunk]
      have hside : o'.side = o.side := by rw [hshrunk]
      have hprice : o'.price = o.price := by rw [hshrunk]
      rw [hacct,hprice]
      exact ⟨_,.live o ho (hside ▸ hs),notional_mono (hlive id o ho) hle⟩
    | rests no q hcmd hid htif hshrunk hq hle =>
      subst hshrunk
      exact ⟨_,.ordered x no (List.mem_cons_self ..) hcmd hid hs,notional_mono (hnew no hcmd) hle⟩
    | replaces r o q hcmd hid ho hacct htif hshrunk hq hle =>
      subst hshrunk hid
      refine ⟨_,?_,notional_mono (hrep r hcmd) hle⟩
      have hold : Version e.book (x::rest) r.orderId o.accountId _ := .live o ho hs
      rw [hacct] at hold
      exact hold.replacing x r (List.mem_cons_self ..) hcmd rfl
  | ordered y no hy hcmd hid hs =>
    exact ⟨_,.ordered y no (List.mem_cons_of_mem _ hy) hcmd hid hs,Int.le_refl _⟩
  | replacing _ y r hy hcmd hid ih =>
    obtain ⟨m,hm,-⟩ := ih
    exact ⟨_,hm.replacing y r (List.mem_cons_of_mem _ hy) hcmd hid,Int.le_refl _⟩

end Version

/-! ### Cover under the steps -/

namespace Covered

theorem start (funding : List (AccountId × Int64)) (apiKeys : OrdMap String AccountId) :
    Covered (System.start funding apiKeys : System S) := by
  intro id acct n h
  induction h with
  | live o ho hs => simp [System.start,Engine.new,OrderBook.get,OrderBook.new] at ho
  | ordered x no hx hcmd hid hs => simp [System.start] at hx
  | replacing _ x r hx hcmd hid ih => simp [System.start] at hx

theorem frame (h : Covered sys) (hk : Known sys l) {connId : UInt64} {bytes : List UInt8} {up : Bool}
    (ht : sys.Trading l (.frame connId bytes up)) (hc : sys.KeepsCover (.frame connId bytes up)) :
    Covered (sys.frame connId bytes up).1 := by
  obtain ⟨g,out,hframe,heff,hout⟩ := frame_effect ht
  rw [hframe]
  intro id acct n hv
  cases heff with
  | quiet ha hp hlocal =>
    rw [Option.toList_none,List.append_nil] at hv
    rw [hp]
    exact h id acct n hv
  | ordered no token am risk hok ha hp hlocal =>
    obtain ⟨hd,htrade⟩ := hout _ rfl
    obtain ⟨-,-,hprice,hqty,hno⟩ := htrade
    obtain ⟨_,-,rfl,-⟩ := Gateway.AccountManager.checkAndReserveOrder_ok hok
    have hfresh : ∀ y ∈ sys.toEngine, ∀ r, y.command = .replace r → r.orderId ≠ no.orderId := by
      intro y hy r hr heq
      obtain ⟨-,-,p,hp⟩ := (hk.queued y hy).replace r hr
      rw [heq,hno] at hp
      cases hp
    simp only [hp,OrdMap.get_insert]
    have hsent := hv.of_send (x := ⟨.newOrder no,connId,risk⟩) fun no' hno' => Command.newOrder.inj hno' ▸ hfresh
    rcases hsent with hv | ⟨_,⟨rfl⟩,rfl,rfl,rfl,hs⟩ | ⟨_,⟨⟩,-⟩
    · obtain ⟨md,hmd,hrest⟩ := h id acct n hv
      have hne : no.orderId ≠ id := by
        rintro rfl
        rw [(hk.fresh hno).2.1] at hmd
        cases hmd
      rw [if_neg hne]
      exact ⟨md,hmd,hrest⟩
    · rw [if_pos rfl]
      refine ⟨_,rfl,rfl,?_⟩
      have hfits := (hc _ hd).1 no rfl hs
      simp only [Gateway.AccountManager.orderRequired,hs]
      rw [toInt_mul_of_pos hprice hqty hfits]
  | cancelling c risk ha hp hlocal =>
    have hold : Version sys.engine.book sys.toEngine id acct n := by
      have hsent := hv.of_send (x := ⟨.cancel c,connId,risk⟩) fun _ hno => Command.noConfusion hno
      rcases hsent with hv | ⟨_,⟨⟩,-⟩ | ⟨_,⟨⟩,-⟩
      exact hv
    obtain ⟨md,hmd,hacct,hle⟩ := h id acct n hold
    simp only [hp,get_withOperation,hmd,Option.map_some]
    refine ⟨_,rfl,?_⟩
    split_ifs <;> exact ⟨hacct,hle⟩
  | replacing r md token am risk hmd hok ha hp hlocal =>
    obtain ⟨hd,-,-,hprice,hqty⟩ := hout _ rfl
    have hcr := (hc _ hd).2 r md _ rfl hmd hok
    obtain ⟨_,-,rfl,-⟩ := Gateway.AccountManager.adjustReservation_ok hok
    have hsent : Version sys.engine.book sys.toEngine id acct n ∨ (id = r.orderId ∧
        n = r.newPrice.toInt*r.newQty.toInt ∧ ∃ m, Version sys.engine.book sys.toEngine id acct m) := by
      have hnew := hv.of_send (x := ⟨.replace r,connId,risk⟩) fun _ hno => Command.noConfusion hno
      rcases hnew with hv | ⟨_,⟨⟩,-⟩ | ⟨_,⟨rfl⟩,hnew⟩
      · exact Or.inl hv
      · exact Or.inr hnew
    by_cases hid : id = r.orderId
    · -- the order has a version, so the connection tracks it and the new amount is in place
      subst hid
      obtain ⟨m,hm,hle⟩ : ∃ m, Version sys.engine.book sys.toEngine r.orderId acct m ∧
          n ≤ max m (r.newPrice.toInt*r.newQty.toInt) := by
        rcases hsent with hv | ⟨-,rfl,m,hm⟩
        · exact ⟨n,hv,le_max_left _ _⟩
        · exact ⟨m,hm,le_max_right _ _⟩
      obtain ⟨hlocal,rfl,hfits,hmono⟩ := hcr acct m hm
      obtain ⟨x,hx⟩ := Option.isSome_iff_exists.mp hlocal
      simp only [hp,hx,OrdMap.get_insert,if_true]
      refine ⟨_,rfl,rfl,?_⟩
      rw [toInt_mul_of_pos hprice hqty hfits]
      exact le_trans hle (max_le hmono (Int.le_refl _))
    · have hold : Version sys.engine.book sys.toEngine id acct n := by
        rcases hsent with hv | ⟨heq,-⟩
        · exact hv
        · exact absurd heq hid
      obtain ⟨md',hmd',hrest⟩ := h id acct n hold
      refine ⟨md',?_,hrest⟩
      simp only [hp]
      cases sys.gateway.localOrder connId r.orderId with
      | none => exact hmd'
      | some x => simp only [OrdMap.get_insert,if_neg (Ne.symm hid)]; exact hmd'

theorem engineStep (h : Covered sys) (hk : Known sys l) : Covered sys.engineStep.1 := by
  unfold System.engineStep
  cases hto : sys.toEngine with
  | nil => exact h
  | cons x rest =>
    have hx := hk.queued x (by rw [hto]; exact List.mem_cons_self ..)
    intro id acct n hv
    obtain ⟨m,hm,hle⟩ := hv.of_engine (hk.effect hto) hk.wf
      (fun id o ho => let ⟨_,_,_,_,hprice,_⟩ := hk.live id o ho; hprice)
      (fun no hno => (hx.new no hno).2.2.1) (fun r hr => (hx.replace r hr).1)
    rw [← hto] at hm
    obtain ⟨md,hmd,hacct,hn⟩ := h id acct m hm
    exact ⟨md,hmd,hacct,le_trans hle hn⟩

theorem deliver (h : Covered sys) (hc : sys.KeepsCover .deliver) : Covered sys.deliver.1 := by
  unfold System.deliver
  cases hto : sys.toGateway with
  | nil => exact h
  | cons e rest =>
    obtain ⟨c,event⟩ := e
    intro id acct n hv
    have hv' : Version sys.engine.book sys.toEngine id acct n := hv
    obtain ⟨md,hmd,hrest⟩ := h id acct n hv'
    refine ⟨md,?_,hrest⟩
    rw [get_handleEngineEvent,if_neg]
    · exact hmd
    · exact fun hdrop => hc c event rest hto id hdrop ⟨acct,n,hv'⟩

theorem step (h : Covered sys) (hk : Known sys l) {a : Action} (ht : sys.Trading l a) (hc : sys.KeepsCover a) :
    Covered (sys.step a) := by
  cases a with
  | connect decodeCommand => exact h
  | disconnect connId => exact h
  | frame connId bytes up => exact h.frame hk ht hc
  | engine => exact h.engineStep hk
  | deliver => exact h.deliver hc

end Covered

variable {funding : List (AccountId × Int64)} {apiKeys : OrdMap String AccountId}

theorem Run.covered (h : Run funding apiKeys (fun sys l a => sys.Trading l a ∧ sys.KeepsCover a) sys l) :
    Covered sys :=
  h.keeps_known (P := fun sys _ => Covered sys) (Covered.start funding apiKeys) fun hs hk ht hc => hs.step hk ht hc

/-- In runs of trading clients whose steps keep the cover, every live buy order is tracked with a
token of its account for at least its price times its remaining quantity. -/
theorem Run.live_covered (h : Run funding apiKeys (fun sys l a => sys.Trading l a ∧ sys.KeepsCover a) sys l)
    {id : OrderId} {o : Order} (ho : sys.engine.book.get id = some o) (hs : o.side = .buy) :
    ∃ md, sys.gateway.pendingOrders[id]? = some md ∧ md.reservationToken.accountId = o.accountId ∧
      o.price.toInt*o.qtyRem.toInt ≤ md.reservationToken.amount.toInt :=
  h.covered id _ _ (.live o ho hs)

/-- A frame that replaces nothing keeps the cover when the notional of its order fits. -/
theorem keepsCover_frame {connId : UInt64} {bytes : List UInt8} {up : Bool} (cmd : Command)
    (hd : sys.gateway.decoded connId bytes = some cmd)
    (hcmd : match cmd with
      | .newOrder no => no.price.toInt*no.qty.toInt < 2^63
      | .replace _ => False
      | _ => True) : sys.KeepsCover (.frame connId bytes up) := by
  intro cmd' hd'
  obtain rfl := Option.some.inj (hd.symm.trans hd')
  refine ⟨?_,?_⟩
  · rintro no rfl -
    exact hcmd
  · rintro r md p rfl
    exact hcmd.elim

/-- A sell takes 4 of the 10 of a resting buy. -/
def partialFill : List Action := logins ++
  [.send 1 (.newOrder ⟨1,1,1,1,.buy,100,10,.gtc,⟨false⟩⟩),.engine,
    .send 2 (.newOrder ⟨1,2,2,1,.sell,100,4,.gtc,⟨false⟩⟩),.engine]

/-- Until its fill is delivered, the rest of the buy is covered. -/
theorem partialFill_covered :
    let sys := ((System.start twoAccounts twoKeys : System (FreeListSlab Order)).execute Ledger.empty partialFill).1
    (sys.engine.book.get 1).map Order.qtyRem = some 6 ∧
      ∃ md, sys.gateway.pendingOrders[(1 : OrderId)]? = some md ∧ md.reservationToken.accountId = 1 ∧
        600 ≤ md.reservationToken.amount.toInt := by
  have hc : Allowed (fun sys l a => sys.Trading l a ∧ sys.KeepsCover a)
      (System.start twoAccounts twoKeys : System (FreeListSlab Order)) Ledger.empty partialFill := by
    refine ⟨⟨trivial,trivial⟩,⟨trivial,trivial⟩,⟨?_,keepsCover_frame (.authenticate ⟨"test-key-1"⟩) ?_ trivial⟩,
      ⟨?_,keepsCover_frame (.authenticate ⟨"test-key-2"⟩) ?_ trivial⟩,
      ⟨?_,keepsCover_frame (.newOrder ⟨1,1,1,1,.buy,100,10,.gtc,⟨false⟩⟩) ?_ ?_⟩,⟨trivial,trivial⟩,
      ⟨?_,keepsCover_frame (.newOrder ⟨1,2,2,1,.sell,100,4,.gtc,⟨false⟩⟩) ?_ ?_⟩,⟨trivial,trivial⟩,trivial⟩ <;>
    decide +kernel
  have ho : (((System.start twoAccounts twoKeys : System (FreeListSlab Order)).execute Ledger.empty
      partialFill).1.engine.book.get 1) = some ⟨1,1,1,.buy,100,6,.gtc,⟨false⟩⟩ := by
    decide +kernel
  exact ⟨congrArg (Option.map Order.qtyRem) ho,(Run.start.execute partialFill hc).live_covered ho rfl⟩

/-- Once its fill is delivered, the rest of the buy is live without cover. -/
theorem partialFill_uncovered : ∃ (sys : System (FreeListSlab Order)) (l : Ledger),
    Run twoAccounts twoKeys Trading sys l ∧
      (sys.engine.book.get 1).map (fun o => (o.side,o.price,o.qtyRem)) = some (.buy,100,6) ∧
      sys.gateway.pendingOrders[(1 : OrderId)]? = none := by
  refine ⟨_,_,Run.start.execute (partialFill ++ [.deliver,.deliver,.deliver]) ?_,?_,?_⟩ <;>
  decide +kernel

end System
end HighPerfTrading
