import HighPerfTrading.Codecs.Binary

/-! The events on the wire: a message type and little-endian fields, optional fields behind a tag byte. A decoder
gives back every event whatever follows it, so no event's bytes are a prefix of another's. -/
namespace HighPerfTrading
namespace BinaryCodec

def mtAck : UInt16 := 101
def mtReject : UInt16 := 102
def mtFill : UInt16 := 103
def mtBookTop : UInt16 := 104
def mtAccountState : UInt16 := 105
def mtAuthSuccess : UInt16 := 106
def mtAuthFailure : UInt16 := 107

/-! ### Encoding -/

def putOpt {α : Type} (put : α → List UInt8) : Option α → List UInt8
  | some x => 1::put x
  | none => [0]

def putOptI64 : Option Int64 → List UInt8 := putOpt putI64

def reasonCode : RejectReason → UInt8
  | .invalid => 1
  | .risk => 2
  | .overloaded => 3
  | .notFound => 4
  | .postOnlyWouldCross => 5
  | .rateLimitExceeded => 6

def eventType : Event → UInt16
  | .ack _ => mtAck
  | .reject _ => mtReject
  | .fill _ => mtFill
  | .bookTop _ => mtBookTop
  | .accountState _ => mtAccountState
  | .authSuccess _ => mtAuthSuccess
  | .authFailure _ => mtAuthFailure

def putFields : Event → List UInt8
  | .ack a => Wire.le64.write a.serverSeq ++ (Wire.le64.write a.clientSeq ++ Wire.le64.write a.orderId)
  | .reject r => Wire.le64.write r.serverSeq ++ (Wire.le64.write r.clientSeq ++ ([reasonCode r.reason] ++
      putOpt Wire.le64.write r.orderId))
  | .fill f => Wire.le64.write f.serverSeq ++ (Wire.le64.write f.clientSeq ++ (Wire.le32.write f.symbolId ++
      (Wire.le64.write f.takerOrderId ++ (Wire.le64.write f.makerOrderId ++ (putI64 f.price ++ putI64 f.qty)))))
  | .bookTop t => Wire.le64.write t.serverSeq ++ (Wire.le32.write t.symbolId ++ (putOptI64 t.bestBidPx ++
      (putOptI64 t.bestBidQty ++ (putOptI64 t.bestAskPx ++ putOptI64 t.bestAskQty))))
  | .accountState s => Wire.le64.write s.serverSeq ++ (Wire.le64.write s.clientSeq ++ (Wire.le32.write s.accountId ++
      (Wire.le32.write s.symbolId ++ (putI64 s.position.netPosition ++ (putI64 s.position.avgPrice ++
        (putI64 s.position.realizedPnl ++ (putI64 s.riskLimits.maxLongPosition ++
          (putI64 s.riskLimits.maxShortPosition ++ putI64 s.riskLimits.maxOrderSize))))))))
  | .authSuccess a => Wire.le32.write a.accountId
  | .authFailure a => putString a.reason

/-- The bytes that an event adds to the output. -/
def encodeEvent (ev : Event) : List UInt8 := Wire.le16.write (eventType ev) ++ putFields ev

/-! ### A decoder -/

def getOpt {α : Type} (getter : Reader α) : Reader (Option α) := do
  let tag ← getU8
  if tag = 0 then pure none else if tag = 1 then some <$> getter else throw (.malformed "binary: bad tag")

def getReason : Reader RejectReason := do
  let code ← getU8
  match [RejectReason.invalid,.risk,.overloaded,.notFound,.postOnlyWouldCross,.rateLimitExceeded].find?
      fun r => decide (reasonCode r = code) with
  | none => throw (.malformed "binary: bad reason")
  | some r => pure r

def getAck : Reader Ack := do
  let serverSeq ← getU64
  let clientSeq ← getU64
  let orderId ← getU64
  return ⟨serverSeq,clientSeq,orderId⟩

def getReject : Reader Reject := do
  let serverSeq ← getU64
  let clientSeq ← getU64
  let reason ← getReason
  let orderId ← getOpt getU64
  return ⟨serverSeq,clientSeq,orderId,reason⟩

def getFill : Reader Fill := do
  let serverSeq ← getU64
  let clientSeq ← getU64
  let symbolId ← getU32
  let takerOrderId ← getU64
  let makerOrderId ← getU64
  let price ← getI64
  let qty ← getI64
  return ⟨serverSeq,clientSeq,symbolId,takerOrderId,makerOrderId,price,qty⟩

def getBookTop : Reader BookTop := do
  let serverSeq ← getU64
  let symbolId ← getU32
  let bestBidPx ← getOpt getI64
  let bestBidQty ← getOpt getI64
  let bestAskPx ← getOpt getI64
  let bestAskQty ← getOpt getI64
  return ⟨serverSeq,symbolId,bestBidPx,bestBidQty,bestAskPx,bestAskQty⟩

def getAccountState : Reader AccountState := do
  let serverSeq ← getU64
  let clientSeq ← getU64
  let accountId ← getU32
  let symbolId ← getU32
  let netPosition ← getI64
  let avgPrice ← getI64
  let realizedPnl ← getI64
  let maxLongPosition ← getI64
  let maxShortPosition ← getI64
  let maxOrderSize ← getI64
  return ⟨serverSeq,clientSeq,accountId,symbolId,⟨netPosition,avgPrice,realizedPnl⟩,
    ⟨maxLongPosition,maxShortPosition,maxOrderSize⟩⟩

def getFields (mt : UInt16) : Reader Event :=
  if mt = mtAck then .ack <$> getAck
  else if mt = mtReject then .reject <$> getReject
  else if mt = mtFill then .fill <$> getFill
  else if mt = mtBookTop then .bookTop <$> getBookTop
  else if mt = mtAccountState then .accountState <$> getAccountState
  else if mt = mtAuthSuccess then (fun accountId => .authSuccess ⟨accountId⟩) <$> getU32
  else if mt = mtAuthFailure then (fun reason => .authFailure ⟨reason⟩) <$> getString
  else throw (.malformed "binary: unknown msg_type")

def getEvent : Reader Event := do
  let mt ← get Wire.le16
  getFields mt

/-- The event at the front of the input and the length of its bytes. -/
def decodeEvent (input : List UInt8) : Option (Event × ℕ) :=
  match getEvent input with
  | .error _ => none
  | .ok (ev,rest) => some (ev,input.length-rest.length)

/-! ### Reading back what was written -/

namespace Reads
variable {α : Type}

theorem getOpt {getter : Reader α} {put : α → List UInt8} (h : ∀ a, Reads getter (put a) a) (v : Option α) :
    Reads (getOpt getter) (putOpt put v) v := by
  cases v with
  | none => exact fun rest => rfl
  | some a => exact (get Wire.byte 1).bind ((h a).map some)

theorem getReason (r : RejectReason) : Reads getReason [reasonCode r] r := by
  intro rest
  cases r <;> rfl

theorem getAck (a : Ack) : Reads getAck (putFields (.ack a)) a :=
  (get _ _).bind ((get _ _).bind (get Wire.le64 _).last)

theorem getReject (r : Reject) : Reads getReject (putFields (.reject r)) r :=
  (get _ _).bind ((get _ _).bind ((getReason _).bind (getOpt (get Wire.le64) _).last))

theorem getFill (f : Fill) : Reads getFill (putFields (.fill f)) f :=
  (get _ _).bind ((get _ _).bind ((get _ _).bind ((get _ _).bind ((get _ _).bind ((getI64 _).bind (getI64 _).last)))))

theorem getBookTop (t : BookTop) : Reads getBookTop (putFields (.bookTop t)) t :=
  (get _ _).bind ((get _ _).bind ((getOpt getI64 _).bind ((getOpt getI64 _).bind ((getOpt getI64 _).bind
    (getOpt getI64 _).last))))

theorem getAccountState (s : AccountState) : Reads getAccountState (putFields (.accountState s)) s :=
  (get _ _).bind ((get _ _).bind ((get _ _).bind ((get _ _).bind ((getI64 _).bind ((getI64 _).bind ((getI64 _).bind
    ((getI64 _).bind ((getI64 _).bind (getI64 _).last))))))))

end Reads

/-- The length of a reason is written in 32 bits. -/
def EventFits : Event → Prop
  | .authFailure a => a.reason.utf8ByteSize < 2^32
  | _ => True

theorem reads_fields {ev : Event} (h : EventFits ev) : Reads (getFields (eventType ev)) (putFields ev) ev := by
  cases ev with
  | ack a => exact (Reads.getAck a).map Event.ack
  | reject r => exact (Reads.getReject r).map Event.reject
  | fill f => exact (Reads.getFill f).map Event.fill
  | bookTop t => exact (Reads.getBookTop t).map Event.bookTop
  | accountState s => exact (Reads.getAccountState s).map Event.accountState
  | authSuccess a => exact (Reads.get Wire.le32 a.accountId).map fun accountId => Event.authSuccess ⟨accountId⟩
  | authFailure a => exact (Reads.getString h).map fun reason => Event.authFailure ⟨reason⟩

/-- The decoder gives back the event and its length, whatever follows. -/
theorem decodeEvent_encode {ev : Event} (h : EventFits ev) (rest : List UInt8) :
    decodeEvent (encodeEvent ev ++ rest) = some (ev,(encodeEvent ev).length) := by
  have hread : getEvent (encodeEvent ev ++ rest) = .ok (ev,rest) :=
    (Reads.get Wire.le16 (eventType ev)).bind (reads_fields h) rest
  rw [decodeEvent,hread]
  simp

theorem recovers_events : PrefixCode.Recovers EventFits encodeEvent fun input => (decodeEvent input).map Prod.fst :=
  fun _ h rest => congrArg (Option.map Prod.fst) (decodeEvent_encode h rest)

/-- Of two different events neither one's bytes are a prefix of the other's, and one decoder recovers every event
and its length. -/
theorem events_uniquely_decodable :
    (∀ ev ev', EventFits ev → EventFits ev' → ev ≠ ev' →
      ¬ encodeEvent ev <+: encodeEvent ev' ∧ ¬ encodeEvent ev' <+: encodeEvent ev) ∧
    ∃ decode : List UInt8 → Option (Event × ℕ), ∀ ev, EventFits ev → ∀ rest,
      decode (encodeEvent ev ++ rest) = some (ev,(encodeEvent ev).length) := by
  refine ⟨fun ev ev' h h' hne => ⟨?_,?_⟩,decodeEvent,fun ev h rest => decodeEvent_encode h rest⟩
  · exact recovers_events.not_prefix h h' hne
  · exact recovers_events.not_prefix h' h (Ne.symm hne)

end BinaryCodec
end HighPerfTrading
