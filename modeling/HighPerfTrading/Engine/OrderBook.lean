import HighPerfTrading.Common.Types
import HighPerfTrading.Library.OrderedMap
import HighPerfTrading.Library.Slab

/-! The limit order book of one engine: two maps from price to level, slab storage for the
orders and an index from order id to slab key. Cancelled orders are marked dead in the slab
and leave their queue only when a taker reaches them. -/
namespace HighPerfTrading

structure Order where
  orderId : OrderId
  accountId : AccountId
  symbolId : SymbolId
  side : Side
  price : Price
  qtyRem : Qty
  tif : TimeInForce
  flags : OrderFlags
  deriving DecidableEq, Repr

/-- Slab keys in FIFO order, with the aggregate quantity of the level. -/
structure Level where
  queue : List ℕ
  totalQty : Qty
  deriving DecidableEq, Repr

def Level.new : Level := ⟨[],0⟩

structure OrderBook (S : Type) where
  symbolId : SymbolId
  bids : OrdMap Price Level
  asks : OrdMap Price Level
  orders : S
  index : OrdMap OrderId ℕ

structure MatchFill where
  makerOrderId : OrderId
  makerAccountId : AccountId
  takerOrderId : OrderId
  price : Price
  qty : Qty
  deriving DecidableEq, Repr

namespace OrderBook
variable {S : Type} [Slab S Order]

def new (symbolId : SymbolId) : OrderBook S := ⟨symbolId,∅,∅,Slab.empty,∅⟩

def levels (b : OrderBook S) : Side → OrdMap Price Level
  | .buy => b.bids
  | .sell => b.asks

def setLevels (b : OrderBook S) (s : Side) (m : OrdMap Price Level) : OrderBook S :=
  match s with
  | .buy => { b with bids := m }
  | .sell => { b with asks := m }

def get (b : OrderBook S) (orderId : OrderId) : Option Order :=
  match b.index[orderId]? with
  | none => none
  | some key => Slab.get b.orders key

def bestBid (b : OrderBook S) : Option (Price × Qty) :=
  b.bids.last?.map fun e => (e.1,e.2.totalQty)

def bestAsk (b : OrderBook S) : Option (Price × Qty) :=
  b.asks.first?.map fun e => (e.1,e.2.totalQty)

def wouldCross (b : OrderBook S) (side : Side) (px : Price) : Bool :=
  match side with
  | .buy => (b.bestAsk.map fun ask => decide (ask.1 ≤ px)).getD false
  | .sell => (b.bestBid.map fun bid => decide (px ≤ bid.1)).getD false

def insertResting (b : OrderBook S) (order : Order) : OrderBook S :=
  let key := Slab.vacantKey b.orders
  let book := b.levels order.side
  let lvl := (book[order.price]?).getD Level.new
  ({ b with
      orders := Slab.insert b.orders order
      index := b.index.insert order.orderId key } : OrderBook S).setLevels order.side
    (book.insert order.price ⟨lvl.queue ++ [key],lvl.totalQty+order.qtyRem⟩)

/-- The order is marked dead and leaves the index; its level goes with its last lot, even
while dead keys are still queued there. -/
def cancel (b : OrderBook S) (orderId : OrderId) (accountId : AccountId) : OrderBook S × Bool :=
  match b.index[orderId]? with
  | none => (b,false)
  | some key =>
    match Slab.get b.orders key with
    | none => (b,false)
    | some ord =>
      if ord.accountId ≠ accountId then (b,false) else
        let book := b.levels ord.side
        let book' := match book[ord.price]? with
          | none => book
          | some lvl =>
            if lvl.totalQty-ord.qtyRem ≤ 0 then book.erase ord.price
            else book.insert ord.price { lvl with totalQty := lvl.totalQty-ord.qtyRem }
        (({ b with
            orders := Slab.set b.orders key { ord with qtyRem := 0 }
            index := b.index.erase orderId } : OrderBook S).setLevels ord.side book',true)

/-- Cancel, then rest again under the same id at the tail of the new price. -/
def replace (b : OrderBook S) (orderId : OrderId) (accountId : AccountId) (newPrice : Price)
    (newQty : Qty) : OrderBook S × Bool :=
  match b.get orderId with
  | none => (b,false)
  | some existing =>
    if existing.accountId ≠ accountId then (b,false) else
      ((b.cancel orderId accountId).1.insertResting
        { existing with price := newPrice, qtyRem := newQty },true)

/-- The first key of a queue whose order is live, with the queue left behind it. -/
def popLiveFront (orders : S) : List ℕ → Option (ℕ × List ℕ)
  | [] => none
  | k::rest =>
    if 0 < ((Slab.get orders k).map Order.qtyRem).getD 0 then some (k,rest)
    else popLiveFront orders rest

/-- The loop variables of `match_taker`. -/
structure Matching (S : Type) where
  book : OrderBook S
  takerQty : Qty
  fills : List MatchFill

/-- Where one pass of the matching loop goes; `panic` is a failed `expect`. -/
inductive LoopStep (S : Type)
  | exit
  | panic
  | next (m : Matching S)

/-- The best price among the makers: the lowest ask or the highest bid. -/
def bestPrice (makers : Side) (book : OrdMap Price Level) : Option Price :=
  match makers with
  | .sell => book.first?.map Prod.fst
  | .buy => book.last?.map Prod.fst

/-- The taker's limit does not reach this price. -/
def outside (makers : Side) (takerPrice px : Price) : Bool :=
  match makers with
  | .sell => decide (takerPrice < px)
  | .buy => decide (px < takerPrice)

/-- Trade against the maker at the head of a level. -/
def tradeWith (takerOrderId : OrderId) (makers : Side) (m : Matching S) (bestPx : Price)
    (lvl : Level) (makerKey : ℕ) (rest : List ℕ) (maker : Order) : Matching S :=
  let tradeQty := min m.takerQty maker.qtyRem
  let left := maker.qtyRem-tradeQty
  let total := lvl.totalQty-tradeQty
  let orders := Slab.set m.book.orders makerKey { maker with qtyRem := left }
  let book := m.book.levels makers
  { book := ({ m.book with
        orders := if left = 0 then Slab.remove orders makerKey else orders
        index := if left = 0 then m.book.index.erase maker.orderId else m.book.index } :
        OrderBook S).setLevels makers
      (if total ≤ 0 then book.erase bestPx
        else book.insert bestPx ⟨if left = 0 then rest else makerKey::rest,total⟩)
    takerQty := m.takerQty-tradeQty
    fills := m.fills ++ [⟨maker.orderId,maker.accountId,takerOrderId,bestPx,tradeQty⟩] }

/-- One pass of the matching loop against the makers of one side. -/
def matchStep (takerOrderId : OrderId) (takerPrice : Price) (makers : Side) (m : Matching S) :
    LoopStep S :=
  if m.takerQty ≤ 0 then .exit else
    match bestPrice makers (m.book.levels makers) with
    | none => .exit
    | some bestPx =>
      if outside makers takerPrice bestPx then .exit else
        match (m.book.levels makers)[bestPx]? with
        | none => .panic
        | some lvl =>
          match popLiveFront m.book.orders lvl.queue with
          | none =>
            .next { m with book := m.book.setLevels makers ((m.book.levels makers).erase bestPx) }
          | some (makerKey,rest) =>
            match Slab.get m.book.orders makerKey with
            | none => .panic
            | some maker => .next (tradeWith takerOrderId makers m bestPx lvl makerKey rest maker)

def matchLoop (takerOrderId : OrderId) (takerPrice : Price) (makers : Side) :
    ℕ → Matching S → Matching S
  | 0,m => m
  | n+1,m =>
    match matchStep takerOrderId takerPrice makers m with
    | .next m' => matchLoop takerOrderId takerPrice makers n m'
    | _ => m

/-- Levels and queued keys of a side: a bound on the passes of the loop. -/
def work (book : OrdMap Price Level) : ℕ := book.sumEntries fun _ lvl => lvl.queue.length+1

/-- Match against the asks for a buyer and against the bids for a seller. -/
def matchTaker (b : OrderBook S) (takerOrderId : OrderId) (takerSide : Side) (takerPrice : Price)
    (takerQty : Qty) : OrderBook S × List MatchFill :=
  let makers := takerSide.opposite
  let m := matchLoop takerOrderId takerPrice makers (work (b.levels makers)+1) ⟨b,takerQty,[]⟩
  (m.book,m.fills)

def liveOrderCount (b : OrderBook S) : ℕ := b.index.size

/-- The orders a snapshot stores: the live slab entries in key order. -/
def liveOrders (b : OrderBook S) : List Order :=
  ((Slab.iter b.orders).map Prod.snd).filter fun o => decide (0 < o.qtyRem)

/-- The indexed orders, for reconciliation: sells reserve nothing. -/
def getAllOrderSnapshots (b : OrderBook S) : List OrderSnapshot :=
  b.index.toList.filterMap fun e => (Slab.get b.orders e.2).map fun order =>
    { orderId := e.1
      accountId := order.accountId
      symbolId := order.symbolId
      side := order.side
      price := order.price
      qtyRem := order.qtyRem
      reservedAmount := if order.side = .buy then order.price*order.qtyRem else 0 }

end OrderBook
end HighPerfTrading
