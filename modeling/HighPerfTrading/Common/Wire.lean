import HighPerfTrading.Common.Types
import HighPerfTrading.Library.Codec

/-! How the shared types are serialized: fields in order of declaration, enums by the
position of the variant, integers as variable-length numbers. -/
namespace HighPerfTrading
open Wire

def Side.wire : Wire Side := choice [.buy,.sell] (by rintro (_ | _) <;> decide)

def TimeInForce.wire : Wire TimeInForce := choice [.gtc,.ioc] (by rintro (_ | _) <;> decide)

def OrderFlags.wire : Wire OrderFlags := bool.via OrderFlags.postOnly (fun b => some ⟨b⟩) fun _ => rfl

def Position.wire : Wire Position :=
  (i64.pair (i64.pair i64)).via (fun p => (p.netPosition,p.avgPrice,p.realizedPnl))
    (fun v => some ⟨v.1,v.2.1,v.2.2⟩) fun _ => rfl

def RiskLimits.wire : Wire RiskLimits :=
  (i64.pair (i64.pair i64)).via (fun l => (l.maxLongPosition,l.maxShortPosition,l.maxOrderSize))
    (fun v => some ⟨v.1,v.2.1,v.2.2⟩) fun _ => rfl

/-- A length and the bytes of the text in UTF-8. -/
def stringWire : Wire String :=
  byte.seq.via (fun s => s.toByteArray.data.toList) (fun bs => String.fromUTF8? ⟨bs.toArray⟩) fun s => by
    simp [String.fromUTF8?,String.fromUTF8,s.isValidUTF8]

def Authenticate.wire : Wire Authenticate :=
  stringWire.via Authenticate.apiKey (fun s => some ⟨s⟩) fun _ => rfl

def NewOrder.wire : Wire NewOrder :=
  (u64.pair (u64.pair (u32.pair (u32.pair (Side.wire.pair (i64.pair (i64.pair
    (TimeInForce.wire.pair OrderFlags.wire)))))))).via
    (fun o => (o.clientSeq,o.orderId,o.accountId,o.symbolId,o.side,o.price,o.qty,o.tif,o.flags))
    (fun (cs,id,acct,sym,side,px,qty,tif,flags) => some ⟨cs,id,acct,sym,side,px,qty,tif,flags⟩)
    fun _ => rfl

def Cancel.wire : Wire Cancel :=
  (u64.pair (u64.pair (u32.pair u32))).via (fun c => (c.clientSeq,c.orderId,c.accountId,c.symbolId))
    (fun (cs,id,acct,sym) => some ⟨cs,id,acct,sym⟩) fun _ => rfl

def Replace.wire : Wire Replace :=
  (u64.pair (u64.pair (u32.pair (u32.pair (i64.pair i64))))).via
    (fun r => (r.clientSeq,r.orderId,r.accountId,r.symbolId,r.newPrice,r.newQty))
    (fun (cs,id,acct,sym,px,qty) => some ⟨cs,id,acct,sym,px,qty⟩) fun _ => rfl

def SetRiskLimits.wire : Wire SetRiskLimits :=
  (u64.pair (u32.pair (u32.pair RiskLimits.wire))).via
    (fun s => (s.clientSeq,s.accountId,s.symbolId,s.limits))
    (fun (cs,acct,sym,l) => some ⟨cs,acct,sym,l⟩) fun _ => rfl

def QueryAccount.wire : Wire QueryAccount :=
  (u64.pair (u32.pair u32)).via (fun q => (q.clientSeq,q.accountId,q.symbolId))
    (fun (cs,acct,sym) => some ⟨cs,acct,sym⟩) fun _ => rfl

namespace Command

def write : Command → List UInt8
  | .newOrder o => 0::NewOrder.wire.write o
  | .cancel c => 1::Cancel.wire.write c
  | .replace r => 2::Replace.wire.write r
  | .setRiskLimits s => 3::SetRiskLimits.wire.write s
  | .queryAccount q => 4::QueryAccount.wire.write q
  | .authenticate a => 5::Authenticate.wire.write a

def read (bs : List UInt8) : Option (Command × List UInt8) :=
  ((varint 5).read bs).bind fun (tag,bs) =>
    match tag with
    | 0 => (NewOrder.wire.read bs).map fun r => (.newOrder r.1,r.2)
    | 1 => (Cancel.wire.read bs).map fun r => (.cancel r.1,r.2)
    | 2 => (Replace.wire.read bs).map fun r => (.replace r.1,r.2)
    | 3 => (SetRiskLimits.wire.read bs).map fun r => (.setRiskLimits r.1,r.2)
    | 4 => (QueryAccount.wire.read bs).map fun r => (.queryAccount r.1,r.2)
    | 5 => (Authenticate.wire.read bs).map fun r => (.authenticate r.1,r.2)
    | _ => none

def wire : Wire Command where
  write := write
  read := read
  read_write c rest := by cases c <;> simp [write,read]

example : (wire.read (wire.write (.cancel ⟨300,7,1,1⟩))).map Prod.fst = some (.cancel ⟨300,7,1,1⟩) := by
  decide +kernel

end Command
end HighPerfTrading
