import HighPerfTrading.Engine.AccountManager
import HighPerfTrading.Engine.BookView

/-! The matching engine: one book, the accounts, and the two sequence counters. A command is
processed into the next state and the events it emits. -/
namespace HighPerfTrading

structure Engine (S : Type) where
  serverSeq : UInt64
  commandSeq : UInt64
  book : OrderBook S
  accountManager : AccountManager

namespace Engine
variable {S : Type} [Slab S Order]

/-- The engine of symbol 1 with default risk limits. -/
def new : Engine S := ⟨1,0,OrderBook.new 1,AccountManager.new default⟩

/-- The sequence number of the next event. -/
def nextSeq (e : Engine S) : UInt64 × Engine S := (e.serverSeq,{ e with serverSeq := e.serverSeq+1 })

def ack (e : Engine S) (clientSeq : UInt64) (orderId : OrderId) : Engine S × Event :=
  (e.nextSeq.2,.ack ⟨e.nextSeq.1,clientSeq,orderId⟩)

def reject (e : Engine S) (clientSeq : UInt64) (orderId : Option OrderId) (reason : RejectReason) :
    Engine S × Event :=
  (e.nextSeq.2,.reject ⟨e.nextSeq.1,clientSeq,orderId,reason⟩)

def bookTopEvent (e : Engine S) : Engine S × Event :=
  (e.nextSeq.2,.bookTop ⟨e.nextSeq.1,e.book.symbolId,e.book.bestBid.map Prod.fst,
    e.book.bestBid.map Prod.snd,e.book.bestAsk.map Prod.fst,e.book.bestAsk.map Prod.snd⟩)

/-- One rejection and nothing else. -/
def rejected (e : Engine S) (clientSeq : UInt64) (orderId : OrderId) (reason : RejectReason) :
    Engine S × List Event :=
  ((e.reject clientSeq (some orderId) reason).1,[(e.reject clientSeq (some orderId) reason).2])

/-- The top of the book, then the acknowledgement. -/
def topThenAck (e : Engine S) (clientSeq : UInt64) (orderId : OrderId) : Engine S × List Event :=
  ((e.bookTopEvent.1.ack clientSeq orderId).1,
    [e.bookTopEvent.2,(e.bookTopEvent.1.ack clientSeq orderId).2])

/-- One fill: the taker's position, the maker's, and the event. -/
def emitFill (no : NewOrder) (p : Engine S × List Event) (f : MatchFill) : Engine S × List Event :=
  ({ p.1.nextSeq.2 with
      accountManager := (p.1.accountManager.applyFill no.accountId no.side f.price f.qty).applyFill
        f.makerAccountId no.side.opposite f.price f.qty },
    p.2 ++ [.fill ⟨p.1.nextSeq.1,no.clientSeq,p.1.book.symbolId,f.takerOrderId,f.makerOrderId,
      f.price,f.qty⟩])

/-- The order a new order leaves in the book. -/
def resting (no : NewOrder) (qty : Qty) : Order :=
  ⟨no.orderId,no.accountId,no.symbolId,no.side,no.price,qty,no.tif,no.flags⟩

/-- Match a crossing order, then rest what is left of it unless it is immediate-or-cancel. -/
def execute (e : Engine S) (no : NewOrder) : Engine S × List Event :=
  if e.book.wouldCross no.side no.price then
    let m := e.book.matchTaker no.orderId no.side no.price no.qty
    let p := m.2.foldl (emitFill no) ({ e with book := m.1 },[])
    let rem := no.qty-(m.2.map MatchFill.qty).sum
    (if 0 < rem ∧ no.tif = .gtc then { p.1 with book := p.1.book.insertResting (resting no rem) }
      else p.1,p.2)
  else
    (if no.tif = .gtc then { e with book := e.book.insertResting (resting no no.qty) } else e,[])

def handleNew (e : Engine S) (no : NewOrder) : Engine S × List Event :=
  if no.symbolId ≠ e.book.symbolId ∨ no.qty ≤ 0 then e.rejected no.clientSeq no.orderId .invalid else
    match e.accountManager.checkRisk no.accountId no.side no.qty with
    | .error reason => e.rejected no.clientSeq no.orderId reason
    | .ok _ =>
      if no.flags.postOnly ∧ e.book.wouldCross no.side no.price then
        e.rejected no.clientSeq no.orderId .postOnlyWouldCross
      else
        let p := e.execute no
        let q := p.1.topThenAck no.clientSeq no.orderId
        (q.1,p.2 ++ q.2)

def handleSetRiskLimits (e : Engine S) (srl : SetRiskLimits) : Engine S × List Event :=
  let e' := { e with accountManager := e.accountManager.setLimits srl.accountId srl.limits }
  ((e'.ack srl.clientSeq 0).1,[(e'.ack srl.clientSeq 0).2])

def handleQueryAccount (e : Engine S) (qa : QueryAccount) : Engine S × List Event :=
  (e.nextSeq.2,[.accountState ⟨e.nextSeq.1,qa.clientSeq,qa.accountId,qa.symbolId,
    e.accountManager.getPosition qa.accountId,e.accountManager.getLimits qa.accountId⟩])

def handleCancel (e : Engine S) (c : Cancel) : Engine S × List Event :=
  if c.symbolId ≠ e.book.symbolId then e.rejected c.clientSeq c.orderId .invalid else
    let r := e.book.cancel c.orderId c.accountId
    if r.2 then ({ e with book := r.1 } : Engine S).topThenAck c.clientSeq c.orderId
    else ({ e with book := r.1 } : Engine S).rejected c.clientSeq c.orderId .notFound

/-- The order a replacement stands for: the old one's side and terms at the new price and
quantity. -/
def replacement (r : Replace) (o : Order) : NewOrder :=
  ⟨r.clientSeq,r.orderId,r.accountId,r.symbolId,o.side,r.newPrice,r.newQty,o.tif,o.flags⟩

/-- The old order leaves the book before the new one is validated. -/
def handleReplace (e : Engine S) (r : Replace) : Engine S × List Event :=
  if r.symbolId ≠ e.book.symbolId ∨ r.newQty ≤ 0 then e.rejected r.clientSeq r.orderId .invalid else
    match e.book.get r.orderId with
    | none => e.rejected r.clientSeq r.orderId .notFound
    | some o =>
      if o.accountId ≠ r.accountId then e.rejected r.clientSeq r.orderId .notFound else
        ({ e with book := (e.book.cancel r.orderId r.accountId).1 } : Engine S).handleNew (replacement r o)

def process (e : Engine S) : Command → Engine S × List Event
  | .newOrder no => e.handleNew no
  | .setRiskLimits srl => e.handleSetRiskLimits srl
  | .queryAccount qa => e.handleQueryAccount qa
  | .authenticate _ => (e,[])
  | .cancel c => e.handleCancel c
  | .replace r => e.handleReplace r

/-- A live step of the loop: process, then count. -/
def live (e : Engine S) (cmd : Command) : Engine S :=
  { (e.process cmd).1 with commandSeq := (e.process cmd).1.commandSeq+1 }

/-- The second dispatcher, used during recovery. It cancels without looking at the symbol. -/
def replayCommand (e : Engine S) (cmd : Command) : Engine S :=
  let e' := match cmd with
    | .newOrder no => (e.handleNew no).1
    | .cancel c => { e with book := (e.book.cancel c.orderId c.accountId).1 }
    | .replace r => (e.process (.replace r)).1
    | .setRiskLimits srl => (e.handleSetRiskLimits srl).1
    | .queryAccount qa => (e.handleQueryAccount qa).1
    | .authenticate _ => e
  { e' with commandSeq := e'.commandSeq+1 }

def replay (e : Engine S) (cmds : List Command) : Engine S := cmds.foldl replayCommand e

end Engine
end HighPerfTrading
