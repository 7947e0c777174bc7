import HighPerfTrading.EngineServer.GatewayConnection
import Mathlib.Tactic.SplitIfs

/-! What a step of the engine server can do to its connection. -/
namespace HighPerfTrading
namespace EngineServer
variable {S : Type}

variable [Slab S Order] (postcard : ServerPostcard) (crc32 : List UInt8 → UInt32) (args : Args)

/-- The effects of a step on the connection and on the ledger. -/
inductive Stepped (c : Connection S) (l : Ledger) : Connection S → Ledger → Prop
  | idle : Stepped c l c l
  | ended (hr : c.reader = .next) : Stepped c l { c with reader := .returned } l
  | skipped (hr : c.reader = .next) :
      Stepped c l { c with metrics := c.metrics.incFramesIn } { l with frames := l.frames+1 }
  | dropped (inb : Inbound) (hr : c.reader = .next) (hfull : c.thread = .returned ∨ args.ingressCap ≤ c.ingress.length) :
      Stepped c l { c with metrics := c.metrics.incFramesIn }
        { l with frames := l.frames+1, offered := l.offered ++ [inb] }
  | accepted (inb : Inbound) (hr : c.reader = .next) (hroom : c.ingress.length < args.ingressCap) :
      Stepped c l { c with metrics := c.metrics.incFramesIn, ingress := c.ingress ++ [inb], reader := .counting }
        { l with frames := l.frames+1, offered := l.offered ++ [inb], accepted := l.accepted ++ [inb] }
  | asked (hr : c.reader = .next) : Stepped c l { c with metrics := c.metrics.incFramesIn, reader := .asked }
      { l with frames := l.frames+1, asked := (l.processed.length,l.accepted.length) }
  | unheard (hr : c.reader = .next) : Stepped c l { c with metrics := c.metrics.incFramesIn }
      { l with frames := l.frames+1, asked := (l.processed.length,l.accepted.length) }
  | counted (hr : c.reader = .counting) : Stepped c l { c with metrics := c.metrics.queueInc, reader := .next } l
  | relayed (orders : List OrderSnapshot) (hr : c.reader = .answered orders) (hw : c.writer ≠ .returned) :
      Stepped c l { c with responses := c.responses ++ [.allOrders orders], reader := .next } l
  | unrelayed (orders : List OrderSnapshot) (hr : c.reader = .answered orders) (hw : c.writer = .returned) :
      Stepped c l { c with reader := .returned } l
  | unanswered (hr : c.reader = .asked) (ht : c.thread = .returned) : Stepped c l { c with reader := .next } l
  | received (inb : Inbound) (rest : List Inbound) (ht : c.thread = .selecting) (hq : c.ingress = inb::rest) :
      Stepped c l { c with thread := .received inb, ingress := rest } l
  | processed (inb : Inbound) (elapsed : Bool) (ht : c.thread = .received inb) :
      Stepped c l
        { c with
          metrics := c.metrics.queueDec
          server := (c.server.journaled postcard crc32 inb.cmd elapsed).processed inb.cmd
          thread := .sending inb.connId (c.server.engine.process inb.cmd).2 }
        { l with processed := l.processed ++ [inb] }
  | sent (connId : UInt64) (ev : Event) (evs : List Event) (ht : c.thread = .sending connId (ev::evs))
      (hw : c.writer ≠ .returned) :
      Stepped c l { c with thread := .sending connId evs, egress := c.egress ++ [⟨connId,ev⟩] } l
  | cut (connId : UInt64) (ev : Event) (evs : List Event) (ht : c.thread = .sending connId (ev::evs))
      (hw : c.writer = .returned) : Stepped c l { c with thread := .returned } l
  | finished (connId : UInt64) (timestamp : UInt64) (ht : c.thread = .sending connId []) :
      Stepped c l
        { c with
          server := (c.server.snapshotIfDue postcard crc32).rotateIfDue postcard crc32 timestamp
          thread := .selecting } l
  | closed (ht : c.thread = .selecting) (hq : c.ingress = []) (hr : c.reader = .returned) :
      Stepped c l { c with server := c.server.shutdown postcard crc32, thread := .returned } l
  | answered (ht : c.thread = .selecting) (hr : c.reader = .asked) :
      Stepped c l { c with reader := .answered c.server.engine.book.getAllOrderSnapshots }
        { l with replies := l.replies ++ [⟨l.asked.1,l.asked.2,l.processed.length⟩] }
  | ticked (hw : c.writer = .selecting) : Stepped c l { c with writer := .draining } l
  | fed (out : Outbound) (rest : List Outbound) (hw : c.writer = .draining) (he : c.egress = out::rest)
      (hfit : (postcard.toGateway.encode (.clientEvent out.connId out.ev none)).length ≤ args.maxFrame) :
      Stepped c l
        { c with
          egress := rest
          fed := c.fed ++ [postcard.toGateway.encode (.clientEvent out.connId out.ev none)]
          metrics := c.metrics.incFramesOut } l
  | flushed (hw : c.writer = .draining) (he : c.egress = []) :
      Stepped c l { c with flushed := c.fed.length, writer := .selecting } l
  | responded (m : EngineToGateway) (rest : List EngineToGateway) (hw : c.writer = .selecting)
      (hm : c.responses = m::rest) (hfit : (postcard.toGateway.encode m).length ≤ args.maxFrame) :
      Stepped c l
        { c with
          responses := rest
          fed := c.fed ++ [postcard.toGateway.encode m]
          flushed := c.fed.length+1
          metrics := c.metrics.incFramesOut } l
  | stopped : Stepped c l c.writerReturns l

omit [Slab S Order] in
theorem put_cases (c : Connection S) (m : EngineToGateway) :
    ((postcard.toGateway.encode m).length ≤ args.maxFrame ∧
      c.put postcard args m = { c with fed := c.fed ++ [postcard.toGateway.encode m], metrics := c.metrics.incFramesOut }) ∨
      c.put postcard args m = c.writerReturns := by
  unfold Connection.put
  split_ifs with hfit
  · exact .inl ⟨hfit,rfl⟩
  · exact .inr rfl

variable {postcard crc32 args}

theorem readFrame_cases (c : Connection S) (l : Ledger) (bytes : List UInt8) :
    Stepped postcard crc32 args c l (c.readFrame postcard args bytes) (l.readFrame postcard args c bytes) := by
  unfold Connection.readFrame Ledger.readFrame
  by_cases hr : c.reader = .next
  · rw [if_neg (not_not.mpr hr)]
    by_cases hlong : args.maxFrame < bytes.length
    · rw [if_pos hlong,if_neg (fun h => absurd h.2 (Nat.not_le.mpr hlong))]
      exact .ended hr
    · rw [if_neg hlong,if_pos ⟨hr,Nat.not_lt.mp hlong⟩]
      cases hm : postcard.toEngine.decode bytes with
      | none => exact .skipped hr
      | some m =>
        cases m with
        | ping => exact .skipped hr
        | execute exec =>
          simp only [Connection.trySend]
          split_ifs with hroom
          · exact .accepted _ hr hroom.2
          · refine .dropped _ hr ?_
            by_cases ht : c.thread = .returned
            · exact .inl ht
            · exact .inr (Nat.not_lt.mp fun hlt => hroom ⟨ht,hlt⟩)
        | queryAllOrders =>
          simp only [Connection.query]
          split_ifs with ht
          · exact .asked hr
          · exact .unheard hr
  · rw [if_pos hr,if_neg fun h => hr h.1]
    exact .idle

theorem step_cases (c : Connection S) (l : Ledger) (a : Action) :
    Stepped postcard crc32 args c l (c.step postcard crc32 args a) (l.step postcard args c a) := by
  cases a with
  | frame bytes => exact readFrame_cases c l bytes
  | count =>
    simp only [Connection.step,Connection.count,Ledger.step]
    split_ifs with hr
    · exact .counted hr
    · exact .idle
  | resume =>
    simp only [Connection.step,Connection.resume,Ledger.step]
    cases hr : c.reader with
    | answered orders =>
      simp only
      split_ifs with hw
      · exact .relayed orders hr hw
      · exact .unrelayed orders hr (not_not.mp hw)
    | asked =>
      simp only
      split_ifs with ht
      · exact .unanswered hr ht
      · exact .idle
    | next => exact .idle
    | counting => exact .idle
    | returned => exact .idle
  | hangUp =>
    simp only [Connection.step,Connection.hangUp,Ledger.step]
    split_ifs with hr
    · exact .ended hr
    · exact .idle
  | receive =>
    simp only [Connection.step,Connection.receive,Ledger.step]
    cases ht : c.thread with
    | selecting =>
      cases hq : c.ingress with
      | nil => exact .idle
      | cons inb rest => exact .received inb rest ht hq
    | received inb => exact .idle
    | sending connId evs => exact .idle
    | returned => exact .idle
  | process elapsed =>
    simp only [Connection.step,Connection.process,Ledger.step,Ledger.process]
    cases ht : c.thread with
    | received inb => exact .processed inb elapsed ht
    | selecting => exact .idle
    | sending connId evs => exact .idle
    | returned => exact .idle
  | send =>
    simp only [Connection.step,Connection.send,Ledger.step]
    cases ht : c.thread with
    | sending connId evs =>
      cases evs with
      | nil => exact .idle
      | cons ev evs =>
        simp only
        split_ifs with hw
        · exact .sent connId ev evs ht hw
        · exact .cut connId ev evs ht (not_not.mp hw)
    | selecting => exact .idle
    | received inb => exact .idle
    | returned => exact .idle
  | finish timestamp =>
    simp only [Connection.step,Connection.finish,Ledger.step]
    cases ht : c.thread with
    | sending connId evs =>
      cases evs with
      | nil => exact .finished connId timestamp ht
      | cons ev evs => exact .idle
    | selecting => exact .idle
    | received inb => exact .idle
    | returned => exact .idle
  | answer =>
    simp only [Connection.step,Connection.answer,Ledger.step,Ledger.answer]
    split_ifs with h
    · exact .answered h.1 h.2
    · exact .idle
  | close =>
    simp only [Connection.step,Connection.close,Ledger.step]
    split_ifs with h
    · exact .closed h.1 h.2.1 h.2.2
    · exact .idle
  | tick =>
    simp only [Connection.step,Connection.tick,Ledger.step]
    split_ifs with hw
    · exact .ticked hw
    · exact .idle
  | feed =>
    simp only [Connection.step,Connection.feed,Ledger.step]
    split
    case h_1 out rest hw he =>
      rcases put_cases postcard args { c with egress := rest } (.clientEvent out.connId out.ev none) with ⟨hfit,hput⟩ | hput
      · rw [hput]
        exact .fed out rest hw he hfit
      · rw [hput]
        exact .stopped
    case h_2 => exact .idle
  | flush =>
    simp only [Connection.step,Connection.flush,Ledger.step]
    split_ifs with h
    · exact .flushed h.1 h.2
    · exact .idle
  | respond =>
    simp only [Connection.step,Connection.respond,Ledger.step]
    split
    case h_1 m rest hw hm =>
      rcases put_cases postcard args { c with responses := rest } m with ⟨hfit,hput⟩ | hput
      · rw [hput,if_neg (by simp [hw]),List.length_append]
        exact .responded m rest hw hm hfit
      · rw [hput]
        exact .stopped
    case h_2 => exact .idle
  | abort =>
    simp only [Connection.step,Connection.abort,Ledger.step]
    split_ifs
    · exact .stopped
    · exact .idle
  | fail => exact .stopped

omit [Slab S Order] in
/-- Only a frame of the gateway is counted as one. -/
theorem Ledger.frames_step (c : Connection S) (l : Ledger) {a : Action} (ha : ∀ bytes, a ≠ .frame bytes) :
    (l.step postcard args c a).frames = l.frames := by
  cases a with
  | frame bytes => exact absurd rfl (ha bytes)
  | process elapsed =>
    simp only [Ledger.step,Ledger.process]
    split <;> rfl
  | answer =>
    simp only [Ledger.step,Ledger.answer]
    split_ifs <;> rfl
  | _ => rfl

/-- What holds at first and after every step holds after any actions. -/
theorem execute_keeps {P : Connection S → Ledger → Prop}
    (hstep : ∀ {c c' l l'}, P c l → Stepped postcard crc32 args c l c' l' → P c' l') {s : Connection S × Ledger}
    (h : P s.1 s.2) (as : List Action) : P (execute postcard crc32 args s as).1 (execute postcard crc32 args s as).2 :=
  Machine.after_stays (m := machine postcard crc32 args) (P := fun s => P s.1 s.2)
    (fun s a hs => hstep hs (step_cases s.1 s.2 a)) h as

end EngineServer
end HighPerfTrading
