import HighPerfTrading.Engine.Engine
import HighPerfTrading.Library.CheckedInt

/-! The engine compiled with overflow checks: every operator of its arithmetic fails where the release build
wraps, and so does the function around it. -/
namespace HighPerfTrading
namespace Checked
open Int64 (checkedAdd checkedSub checkedMul checkedNeg checkedDiv checkedSum)

/-! ### Accounts -/

def checkRisk (m : AccountManager) (accountId : AccountId) (side : Side) (qty : Int64) :
    Option (Except RejectReason Unit) :=
  let limits := m.getLimits accountId
  if limits.maxOrderSize < qty then some (.error .risk) else do
    let currentPos := (m.getPosition accountId).netPosition
    let newPosition ← match side with
      | .buy => checkedAdd currentPos qty
      | .sell => checkedSub currentPos qty
    if limits.maxLongPosition < newPosition then some (.error .risk) else do
      let least ← checkedNeg limits.maxShortPosition
      if newPosition < least then some (.error .risk) else some (.ok ())

/-- Both sides close lots like this, with the difference of the prices the other way round. -/
def closeLots (pos : Position) (a b closingQty qty price : Int64) : Option Position := do
  let pnlPerLot ← checkedSub a b
  let pnl ← checkedMul closingQty pnlPerLot
  let realizedPnl ← checkedAdd pos.realizedPnl pnl
  let openingQty ← checkedSub qty closingQty
  some { pos with
    realizedPnl := realizedPnl
    avgPrice := if 0 < openingQty then price else pos.avgPrice }

/-- Both sides add to their lots like this, with the size of the position counted towards their side. -/
def addLots (pos : Position) (lots qty price : Int64) : Option Position := do
  let held ← checkedMul lots pos.avgPrice
  let added ← checkedMul qty price
  let totalValue ← checkedAdd held added
  let size ← checkedAdd lots qty
  let avgPrice ← checkedDiv totalValue size
  some { pos with avgPrice := avgPrice }

def buyLots (pos : Position) (price qty : Int64) : Option Position :=
  if pos.netPosition < 0 then do
    let short ← checkedNeg pos.netPosition
    closeLots pos pos.avgPrice price (min qty short) qty price
  else if pos.netPosition = 0 then some { pos with avgPrice := price }
  else addLots pos pos.netPosition qty price

def buyFill (pos : Position) (price qty : Int64) : Option Position := do
  let pos' ← buyLots pos price qty
  let netPosition ← checkedAdd pos'.netPosition qty
  some { pos' with netPosition := netPosition }

def sellLots (pos : Position) (price qty : Int64) : Option Position :=
  if 0 < pos.netPosition then closeLots pos price pos.avgPrice (min qty pos.netPosition) qty price
  else if pos.netPosition = 0 then some { pos with avgPrice := price }
  else do
    let short ← checkedNeg pos.netPosition
    addLots pos short qty price

def sellFill (pos : Position) (price qty : Int64) : Option Position := do
  let pos' ← sellLots pos price qty
  let netPosition ← checkedSub pos'.netPosition qty
  some { pos' with netPosition := netPosition }

def applyFill (m : AccountManager) (accountId : AccountId) (side : Side) (price qty : Int64) :
    Option AccountManager := do
  let pos := m.getPosition accountId
  let pos' ← match side with
    | .buy => buyFill pos price qty
    | .sell => sellFill pos price qty
  some { m with positions := m.positions.insert accountId pos' }

/-! ### The book -/

variable {S : Type} [Slab S Order]
open OrderBook (Matching LoopStep)

def insertResting (b : OrderBook S) (order : Order) : Option (OrderBook S) := do
  let key := Slab.vacantKey b.orders
  let book := b.levels order.side
  let lvl := (book[order.price]?).getD Level.new
  let totalQty ← checkedAdd lvl.totalQty order.qtyRem
  some (({ b with
      orders := Slab.insert b.orders order
      index := b.index.insert order.orderId key } : OrderBook S).setLevels order.side
    (book.insert order.price ⟨lvl.queue ++ [key],totalQty⟩))

def cancel (b : OrderBook S) (orderId : OrderId) (accountId : AccountId) : Option (OrderBook S × Bool) :=
  match b.index[orderId]? with
  | none => some (b,false)
  | some key =>
    match Slab.get b.orders key with
    | none => some (b,false)
    | some ord =>
      if ord.accountId ≠ accountId then some (b,false) else do
        let book := b.levels ord.side
        let book' ← match book[ord.price]? with
          | none => some book
          | some lvl => do
            let totalQty ← checkedSub lvl.totalQty ord.qtyRem
            some (if totalQty ≤ 0 then book.erase ord.price
              else book.insert ord.price { lvl with totalQty := totalQty })
        some (({ b with
            orders := Slab.set b.orders key { ord with qtyRem := 0 }
            index := b.index.erase orderId } : OrderBook S).setLevels ord.side book',true)

def tradeWith (takerOrderId : OrderId) (makers : Side) (m : Matching S) (bestPx : Price) (lvl : Level)
    (makerKey : ℕ) (rest : List ℕ) (maker : Order) : Option (Matching S) := do
  let tradeQty := min m.takerQty maker.qtyRem
  let left ← checkedSub maker.qtyRem tradeQty
  let takerQty ← checkedSub m.takerQty tradeQty
  let total ← checkedSub lvl.totalQty tradeQty
  let orders := Slab.set m.book.orders makerKey { maker with qtyRem := left }
  let book := m.book.levels makers
  some
    { book := ({ m.book with
          orders := if left = 0 then Slab.remove orders makerKey else orders
          index := if left = 0 then m.book.index.erase maker.orderId else m.book.index } :
          OrderBook S).setLevels makers
        (if total ≤ 0 then book.erase bestPx
          else book.insert bestPx ⟨if left = 0 then rest else makerKey::rest,total⟩)
      takerQty := takerQty
      fills := m.fills ++ [⟨maker.orderId,maker.accountId,takerOrderId,bestPx,tradeQty⟩] }

def matchStep (takerOrderId : OrderId) (takerPrice : Price) (makers : Side) (m : Matching S) :
    Option (LoopStep S) :=
  if m.takerQty ≤ 0 then some .exit else
    match OrderBook.bestPrice makers (m.book.levels makers) with
    | none => some .exit
    | some bestPx =>
      if OrderBook.outside makers takerPrice bestPx then some .exit else
        match (m.book.levels makers)[bestPx]? with
        | none => some .panic
        | some lvl =>
          match OrderBook.popLiveFront m.book.orders lvl.queue with
          | none =>
            some (.next { m with book := m.book.setLevels makers ((m.book.levels makers).erase bestPx) })
          | some (makerKey,rest) =>
            match Slab.get m.book.orders makerKey with
            | none => some .panic
            | some maker => (tradeWith takerOrderId makers m bestPx lvl makerKey rest maker).map .next

def matchLoop (takerOrderId : OrderId) (takerPrice : Price) (makers : Side) :
    ℕ → Matching S → Option (Matching S)
  | 0,m => some m
  | n+1,m => do
    match ← matchStep takerOrderId takerPrice makers m with
    | .next m' => matchLoop takerOrderId takerPrice makers n m'
    | _ => some m

def matchTaker (b : OrderBook S) (takerOrderId : OrderId) (takerSide : Side) (takerPrice : Price)
    (takerQty : Qty) : Option (OrderBook S × List MatchFill) := do
  let makers := takerSide.opposite
  let m ← matchLoop takerOrderId takerPrice makers (OrderBook.work (b.levels makers)+1) ⟨b,takerQty,[]⟩
  some (m.book,m.fills)

def snapshot (id : OrderId) (order : Order) : Option OrderSnapshot := do
  let reservedAmount ← if order.side = .buy then checkedMul order.price order.qtyRem else some 0
  some
    { orderId := id
      accountId := order.accountId
      symbolId := order.symbolId
      side := order.side
      price := order.price
      qtyRem := order.qtyRem
      reservedAmount := reservedAmount }

def getAllOrderSnapshots (b : OrderBook S) : Option (List OrderSnapshot) :=
  (b.index.toList.filterMap fun e => (Slab.get b.orders e.2).map fun order => (e.1,order)).mapM
    fun e => snapshot e.1 e.2

/-! ### The engine -/

def emitFill (no : NewOrder) (p : Engine S × List Event) (f : MatchFill) : Option (Engine S × List Event) := do
  let m ← applyFill p.1.accountManager no.accountId no.side f.price f.qty
  let m' ← applyFill m f.makerAccountId no.side.opposite f.price f.qty
  some ({ p.1.nextSeq.2 with accountManager := m' },
    p.2 ++ [.fill ⟨p.1.nextSeq.1,no.clientSeq,p.1.book.symbolId,f.takerOrderId,f.makerOrderId,f.price,f.qty⟩])

def execute (e : Engine S) (no : NewOrder) : Option (Engine S × List Event) :=
  if e.book.wouldCross no.side no.price then do
    let m ← matchTaker e.book no.orderId no.side no.price no.qty
    let p ← m.2.foldlM (emitFill no) ({ e with book := m.1 },[])
    let filledQty ← checkedSum (m.2.map MatchFill.qty)
    let rem ← checkedSub no.qty filledQty
    if 0 < rem ∧ no.tif = .gtc then do
      let b ← insertResting p.1.book (Engine.resting no rem)
      some ({ p.1 with book := b },p.2)
    else some p
  else if no.tif = .gtc then do
    let b ← insertResting e.book (Engine.resting no no.qty)
    some ({ e with book := b },[])
  else some (e,[])

def handleNew (e : Engine S) (no : NewOrder) : Option (Engine S × List Event) :=
  if no.symbolId ≠ e.book.symbolId ∨ no.qty ≤ 0 then some (e.rejected no.clientSeq no.orderId .invalid) else do
    match ← checkRisk e.accountManager no.accountId no.side no.qty with
    | .error reason => some (e.rejected no.clientSeq no.orderId reason)
    | .ok _ =>
      if no.flags.postOnly ∧ e.book.wouldCross no.side no.price then
        some (e.rejected no.clientSeq no.orderId .postOnlyWouldCross)
      else do
        let p ← execute e no
        let q := p.1.topThenAck no.clientSeq no.orderId
        some (q.1,p.2 ++ q.2)

def handleCancel (e : Engine S) (c : Cancel) : Option (Engine S × List Event) :=
  if c.symbolId ≠ e.book.symbolId then some (e.rejected c.clientSeq c.orderId .invalid) else do
    let r ← cancel e.book c.orderId c.accountId
    some (if r.2 then ({ e with book := r.1 } : Engine S).topThenAck c.clientSeq c.orderId
      else ({ e with book := r.1 } : Engine S).rejected c.clientSeq c.orderId .notFound)

def handleReplace (e : Engine S) (r : Replace) : Option (Engine S × List Event) :=
  if r.symbolId ≠ e.book.symbolId ∨ r.newQty ≤ 0 then some (e.rejected r.clientSeq r.orderId .invalid) else
    match e.book.get r.orderId with
    | none => some (e.rejected r.clientSeq r.orderId .notFound)
    | some o =>
      if o.accountId ≠ r.accountId then some (e.rejected r.clientSeq r.orderId .notFound) else do
        let b ← cancel e.book r.orderId r.accountId
        handleNew { e with book := b.1 } (Engine.replacement r o)

def process (e : Engine S) : Command → Option (Engine S × List Event)
  | .newOrder no => handleNew e no
  | .setRiskLimits srl => some (e.handleSetRiskLimits srl)
  | .queryAccount qa => some (e.handleQueryAccount qa)
  | .authenticate _ => some (e,[])
  | .cancel c => handleCancel e c
  | .replace r => handleReplace e r

end Checked
end HighPerfTrading
