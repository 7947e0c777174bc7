import HighPerfTrading.Common.Types
import HighPerfTrading.Library.Codec

/-! The binary protocol of the clients: a message type and little-endian fields in a fixed
order. Bytes after the last field are ignored. -/
namespace HighPerfTrading

inductive ProtoError
  | frameTooLarge (size : ℕ)
  | malformed (reason : String)
  deriving DecidableEq, Repr

namespace BinaryCodec

def mtNewOrder : UInt16 := 1
def mtCancel : UInt16 := 2
def mtReplace : UInt16 := 3
def mtSetRiskLimits : UInt16 := 4
def mtQueryAccount : UInt16 := 5
def mtAuthenticate : UInt16 := 6

/-! ### Reading -/

abbrev Reader := StateT (List UInt8) (Except ProtoError)

def get {α : Type} (w : Wire α) : Reader α := fun b =>
  match w.read b with
  | none => .error (.malformed "binary: underrun")
  | some r => .ok r

def getU8 : Reader UInt8 := get .byte
def getU32 : Reader UInt32 := get .le32
def getU64 : Reader UInt64 := get .le64
def getI64 : Reader Int64 := UInt64.toInt64 <$> getU64

/-- A byte that is 0 or 1. -/
def getFlag {α : Type} (zero one : α) (reason : String) : Reader α := do
  let v ← getU8
  if v = 0 then pure zero else if v = 1 then pure one else throw (.malformed reason)

def getBytes (n : ℕ) : Reader (List UInt8) := fun b =>
  match readExact n b with
  | none => .error (.malformed "binary: underrun")
  | some r => .ok r

def getString : Reader String := do
  let len ← getU32
  let bytes ← getBytes len.toNat
  match String.fromUTF8? ⟨bytes.toArray⟩ with
  | none => throw (.malformed "binary: invalid utf8")
  | some s => pure s

def getNewOrder : Reader NewOrder := do
  let clientSeq ← getU64
  let orderId ← getU64
  let accountId ← getU32
  let symbolId ← getU32
  let side ← getFlag .buy .sell "binary: bad side"
  let price ← getI64
  let qty ← getI64
  let tif ← getFlag .gtc .ioc "binary: bad tif"
  let postOnly ← getFlag false true "binary: bad post_only"
  return ⟨clientSeq,orderId,accountId,symbolId,side,price,qty,tif,⟨postOnly⟩⟩

def getCancel : Reader Cancel := do
  let clientSeq ← getU64
  let orderId ← getU64
  let accountId ← getU32
  let symbolId ← getU32
  return ⟨clientSeq,orderId,accountId,symbolId⟩

def getReplace : Reader Replace := do
  let clientSeq ← getU64
  let orderId ← getU64
  let accountId ← getU32
  let symbolId ← getU32
  let newPrice ← getI64
  let newQty ← getI64
  return ⟨clientSeq,orderId,accountId,symbolId,newPrice,newQty⟩

def getSetRiskLimits : Reader SetRiskLimits := do
  let clientSeq ← getU64
  let accountId ← getU32
  let symbolId ← getU32
  let maxLongPosition ← getI64
  let maxShortPosition ← getI64
  let maxOrderSize ← getI64
  return ⟨clientSeq,accountId,symbolId,⟨maxLongPosition,maxShortPosition,maxOrderSize⟩⟩

def getQueryAccount : Reader QueryAccount := do
  let clientSeq ← getU64
  let accountId ← getU32
  let symbolId ← getU32
  return ⟨clientSeq,accountId,symbolId⟩

def getBody (mt : UInt16) : Reader Command :=
  if mt = mtNewOrder then .newOrder <$> getNewOrder
  else if mt = mtCancel then .cancel <$> getCancel
  else if mt = mtReplace then .replace <$> getReplace
  else if mt = mtSetRiskLimits then .setRiskLimits <$> getSetRiskLimits
  else if mt = mtQueryAccount then .queryAccount <$> getQueryAccount
  else if mt = mtAuthenticate then (fun apiKey => .authenticate ⟨apiKey⟩) <$> getString
  else throw (.malformed "binary: unknown msg_type")

def decodeCommand (input : List UInt8) : Except ProtoError Command :=
  match Wire.le16.read input with
  | none => .error (.malformed "binary: missing msg_type")
  | some (mt,b) => (getBody mt b).map Prod.fst

/-! ### The layout a client writes -/

def putI64 (a : Int64) : List UInt8 := Wire.le64.write a.toUInt64

def putFlag (one : Bool) : List UInt8 := [if one then 1 else 0]

def putString (s : String) : List UInt8 :=
  let bytes := s.toByteArray.data.toList
  Wire.le32.write (UInt32.ofNat bytes.length) ++ bytes

def putBody : Command → List UInt8
  | .newOrder o => Wire.le64.write o.clientSeq ++ (Wire.le64.write o.orderId ++ (Wire.le32.write o.accountId ++
      (Wire.le32.write o.symbolId ++ (putFlag (decide (o.side = .sell)) ++ (putI64 o.price ++ (putI64 o.qty ++
        (putFlag (decide (o.tif = .ioc)) ++ putFlag o.flags.postOnly)))))))
  | .cancel c => Wire.le64.write c.clientSeq ++ (Wire.le64.write c.orderId ++ (Wire.le32.write c.accountId ++
      Wire.le32.write c.symbolId))
  | .replace r => Wire.le64.write r.clientSeq ++ (Wire.le64.write r.orderId ++ (Wire.le32.write r.accountId ++
      (Wire.le32.write r.symbolId ++ (putI64 r.newPrice ++ putI64 r.newQty))))
  | .setRiskLimits s => Wire.le64.write s.clientSeq ++ (Wire.le32.write s.accountId ++ (Wire.le32.write s.symbolId ++
      (putI64 s.limits.maxLongPosition ++ (putI64 s.limits.maxShortPosition ++ putI64 s.limits.maxOrderSize))))
  | .queryAccount q => Wire.le64.write q.clientSeq ++ (Wire.le32.write q.accountId ++ Wire.le32.write q.symbolId)
  | .authenticate a => putString a.apiKey

def msgType : Command → UInt16
  | .newOrder _ => mtNewOrder
  | .cancel _ => mtCancel
  | .replace _ => mtReplace
  | .setRiskLimits _ => mtSetRiskLimits
  | .queryAccount _ => mtQueryAccount
  | .authenticate _ => mtAuthenticate

def encodeCommand (cmd : Command) : List UInt8 := Wire.le16.write (msgType cmd) ++ putBody cmd

/-! ### Reading back what was written -/

/-- The reader takes exactly these bytes, whatever follows them. -/
def Reads {α : Type} (m : Reader α) (bs : List UInt8) (a : α) : Prop := ∀ rest, m (bs ++ rest) = .ok (a,rest)

namespace Reads
variable {α β : Type} {m : Reader α} {bs bs' : List UInt8} {a : α} {c : β}

theorem bind {k : α → Reader β} (hm : Reads m bs a) (hk : Reads (k a) bs' c) : Reads (m >>= k) (bs ++ bs') c := by
  intro rest
  change (m (bs ++ bs' ++ rest) >>= fun r => k r.1 r.2) = _
  rw [List.append_assoc,hm]
  exact hk rest

theorem map (f : α → β) (hm : Reads m bs a) : Reads (f <$> m) bs (f a) := by
  intro rest
  change (m (bs ++ rest) >>= fun r => pure (f r.1,r.2)) = _
  rw [hm]; rfl

/-- The last field of a record. -/
theorem last {f : α → β} (hm : Reads m bs a) : Reads (m >>= fun x => pure (f x)) bs (f a) := hm.map f

theorem get (w : Wire α) (a : α) : Reads (get w) (w.write a) a := by
  intro rest
  rw [BinaryCodec.get,w.read_write]

theorem getI64 (a : Int64) : Reads getI64 (putI64 a) a := by
  have h := (get Wire.le64 a.toUInt64).map UInt64.toInt64
  rwa [Int64.toInt64_toUInt64] at h

theorem getFlag (zero one : α) (reason : String) (b : Bool) :
    Reads (getFlag zero one reason) (putFlag b) (if b then one else zero) := by
  intro rest
  cases b <;> rfl

theorem getBytes (bs : List UInt8) : Reads (getBytes bs.length) bs bs := by
  intro rest
  rw [BinaryCodec.getBytes,readExact_append]

theorem getString {s : String} (hs : s.utf8ByteSize < 2^32) : Reads getString (putString s) s := by
  have hlen : (UInt32.ofNat s.toByteArray.data.toList.length).toNat = s.toByteArray.data.toList.length :=
    UInt32.toNat_ofNat_of_lt' hs
  have hutf : String.fromUTF8? ⟨s.toByteArray.data.toList.toArray⟩ = some s := by
    simp [String.fromUTF8?,String.fromUTF8,s.isValidUTF8]
  have hbytes := getBytes s.toByteArray.data.toList
  rw [← hlen] at hbytes
  refine (get Wire.le32 _).bind ?_
  have hend : Reads (match String.fromUTF8? ⟨s.toByteArray.data.toList.toArray⟩ with
      | none => throw (.malformed "binary: invalid utf8")
      | some s => pure s) [] s := by
    rw [hutf]
    exact fun rest => rfl
  have h := hbytes.bind (k := fun bytes => match String.fromUTF8? ⟨bytes.toArray⟩ with
      | none => throw (.malformed "binary: invalid utf8")
      | some s => pure s) hend
  rwa [List.append_nil] at h

theorem getNewOrder (o : NewOrder) : Reads getNewOrder (putBody (.newOrder o)) o := by
  have hside : (if decide (o.side = .sell) then Side.sell else .buy) = o.side := by cases o.side <;> rfl
  have htif : (if decide (o.tif = .ioc) then TimeInForce.ioc else .gtc) = o.tif := by cases o.tif <;> rfl
  have hflag : (if o.flags.postOnly then true else false) = o.flags.postOnly := by cases o.flags.postOnly <;> rfl
  have hs := getFlag Side.buy Side.sell "binary: bad side" (decide (o.side = .sell))
  have ht := getFlag TimeInForce.gtc TimeInForce.ioc "binary: bad tif" (decide (o.tif = .ioc))
  have hf := getFlag false true "binary: bad post_only" o.flags.postOnly
  rw [hside] at hs
  rw [htif] at ht
  rw [hflag] at hf
  exact (get _ _).bind ((get _ _).bind ((get _ _).bind ((get _ _).bind (hs.bind ((getI64 _).bind
    ((getI64 _).bind (ht.bind hf.last)))))))

theorem getCancel (c : Cancel) : Reads getCancel (putBody (.cancel c)) c :=
  (get _ _).bind ((get _ _).bind ((get _ _).bind (get Wire.le32 _).last))

theorem getReplace (r : Replace) : Reads getReplace (putBody (.replace r)) r :=
  (get _ _).bind ((get _ _).bind ((get _ _).bind ((get _ _).bind ((getI64 _).bind (getI64 _).last))))

theorem getSetRiskLimits (s : SetRiskLimits) : Reads getSetRiskLimits (putBody (.setRiskLimits s)) s :=
  (get _ _).bind ((get _ _).bind ((get _ _).bind ((getI64 _).bind ((getI64 _).bind (getI64 _).last))))

theorem getQueryAccount (q : QueryAccount) : Reads getQueryAccount (putBody (.queryAccount q)) q :=
  (get _ _).bind ((get _ _).bind (get Wire.le32 _).last)

end Reads

/-- The length of an API key is written in 32 bits. -/
def Fits : Command → Prop
  | .authenticate a => a.apiKey.utf8ByteSize < 2^32
  | _ => True

theorem reads_body {cmd : Command} (h : Fits cmd) : Reads (getBody (msgType cmd)) (putBody cmd) cmd := by
  cases cmd with
  | newOrder o => exact (Reads.getNewOrder o).map Command.newOrder
  | cancel c => exact (Reads.getCancel c).map Command.cancel
  | replace r => exact (Reads.getReplace r).map Command.replace
  | setRiskLimits s => exact (Reads.getSetRiskLimits s).map Command.setRiskLimits
  | queryAccount q => exact (Reads.getQueryAccount q).map Command.queryAccount
  | authenticate a => exact (Reads.getString h).map fun apiKey => Command.authenticate ⟨apiKey⟩

/-- What follows the command is ignored. -/
theorem decode_encode {cmd : Command} (h : Fits cmd) (rest : List UInt8) :
    decodeCommand (encodeCommand cmd ++ rest) = .ok cmd := by
  rw [decodeCommand,encodeCommand,List.append_assoc,Wire.read_write]
  simp only
  rw [reads_body h]; rfl

end BinaryCodec
end HighPerfTrading
