import HighPerfTrading.EngineServer.Delivery
import HighPerfTrading.Gateway.CarriedOut
import HighPerfTrading.System.Cover
import HighPerfTrading.System.Deployment

/-! While no frame is lost, the gateway with its engine server does what the gateway does with an engine behind two
channels: of the steps of the tasks only the processing of a command and the handling of a message are seen. -/
namespace HighPerfTrading
open Gateway Gateway.GatewayContext
namespace Deployment
variable {S : Type}

def inbound (x : ExecuteCommand) : EngineServer.Inbound := ⟨x.connId,x.command⟩

def commandFrame (postcard : ServerPostcard) (x : ExecuteCommand) : List UInt8 := postcard.toEngine.encode (.execute x)

def outbound (y : UInt64 × Event) : EngineServer.Outbound := ⟨y.1,y.2⟩

def eventMessage (y : UInt64 × Event) : EngineToGateway := .clientEvent y.1 y.2 none

def eventFrame (postcard : ServerPostcard) (y : UInt64 × Event) : List UInt8 :=
  postcard.toGateway.encode (eventMessage y)

/-- What a step is for the system. -/
def systemActions (d : Deployment S) : Action → List HighPerfTrading.Action
  | .connect decodeCommand => [.connect decodeCommand]
  | .disconnect connId => [.disconnect connId]
  | .frame connId bytes up => [.frame connId bytes up]
  | .server (.process _) =>
    match d.link.connection.thread with
    | .received _ => [.engine]
    | _ => []
  | .handleResponse =>
    match d.events with
    | .clientEvent ..::_ => [.deliver]
    | _ => []
  | _ => []

/-- None of the tasks has ended, and no query is under way. -/
structure Up (c : EngineServer.Connection S) : Prop where
  reader : c.reader = .next ∨ c.reader = .counting
  thread : c.thread ≠ .returned
  writer : c.writer ≠ .returned
  responses : c.responses = []

variable [Slab S Order] {postcard : ServerPostcard} {crc32 : List UInt8 → UInt32} {args : EngineServer.Args}

namespace Up
open EngineServer
variable {c : Connection S}

omit [Slab S Order] in
theorem reader_ne (h : Up c) {r : Reader} (hn : r ≠ .next) (hc : r ≠ .counting) : c.reader ≠ r := by
  rcases h.reader with hr | hr <;> rw [hr]
  · exact hn.symm
  · exact hc.symm

/-- Only the network, or a frame that is too long, ends a task. -/
theorem step (h : Up c) {a : EngineServer.Action} (hframe : ∀ bytes, a ≠ .frame bytes)
    (hkeeps : breaks postcard args c a = false) : Up (c.step postcard crc32 args a) := by
  have hrun : ∀ r : Reader, r ≠ .next → r ≠ .counting → c.reader ≠ r := fun _ => h.reader_ne
  obtain ⟨hreader,hthread,hwriter,hresponses⟩ := h
  cases a with
  | frame bytes => exact absurd rfl (hframe bytes)
  | hangUp => cases hkeeps
  | fail => cases hkeeps
  | count =>
    simp only [Connection.step,Connection.count]
    split_ifs
    · exact ⟨.inl rfl,hthread,hwriter,hresponses⟩
    · exact ⟨hreader,hthread,hwriter,hresponses⟩
  | resume =>
    have hsame : c.resume = c := by rcases hreader with hr | hr <;> simp only [Connection.resume,hr]
    rw [Connection.step,hsame]
    exact ⟨hreader,hthread,hwriter,hresponses⟩
  | receive =>
    simp only [Connection.step,Connection.receive]
    split
    · exact ⟨hreader,by simp,hwriter,hresponses⟩
    · exact ⟨hreader,hthread,hwriter,hresponses⟩
  | process elapsed =>
    simp only [Connection.step,Connection.process]
    split
    · exact ⟨hreader,by simp,hwriter,hresponses⟩
    · exact ⟨hreader,hthread,hwriter,hresponses⟩
  | send =>
    simp only [Connection.step,Connection.send]
    split
    · rw [if_pos hwriter]
      exact ⟨hreader,by simp,hwriter,hresponses⟩
    · exact ⟨hreader,hthread,hwriter,hresponses⟩
  | finish timestamp =>
    simp only [Connection.step,Connection.finish]
    split
    · exact ⟨hreader,by simp,hwriter,hresponses⟩
    · exact ⟨hreader,hthread,hwriter,hresponses⟩
  | answer =>
    rw [Connection.step,Connection.answer,if_neg fun hr => hrun .asked (by simp) (by simp) hr.2]
    exact ⟨hreader,hthread,hwriter,hresponses⟩
  | close =>
    rw [Connection.step,Connection.close,if_neg fun hr => hrun .returned (by simp) (by simp) hr.2.2]
    exact ⟨hreader,hthread,hwriter,hresponses⟩
  | tick =>
    simp only [Connection.step,Connection.tick]
    split_ifs
    · exact ⟨hreader,hthread,by simp,hresponses⟩
    · exact ⟨hreader,hthread,hwriter,hresponses⟩
  | feed =>
    simp only [Connection.step,Connection.feed]
    split
    case h_1 out rest hw he =>
      have hfit : (postcard.toGateway.encode (.clientEvent out.connId out.ev none)).length ≤ args.maxFrame := by
        simpa [breaks,he] using hkeeps
      rw [Connection.put,if_pos hfit]
      exact ⟨hreader,hthread,hwriter,hresponses⟩
    case h_2 => exact ⟨hreader,hthread,hwriter,hresponses⟩
  | flush =>
    simp only [Connection.step,Connection.flush]
    split_ifs
    · exact ⟨hreader,hthread,by simp,hresponses⟩
    · exact ⟨hreader,hthread,hwriter,hresponses⟩
  | respond =>
    have hsame : c.respond postcard args = c := by cases hw : c.writer <;> simp only [Connection.respond,hresponses,hw]
    rw [Connection.step,hsame]
    exact ⟨hreader,hthread,hwriter,hresponses⟩
  | abort =>
    rw [Connection.step,Connection.abort,if_neg (hrun .returned (by simp) (by simp))]
    exact ⟨hreader,hthread,hwriter,hresponses⟩

end Up

/-! ### The relation -/

/-- The gateway, the engine and the channels of the system. The commands in the first channel are those that the
queue has taken and those in the gateway's frames, the events in the second one those in messages, those in frames
and those that the write loop has not come to. -/
structure Coupled (postcard : ServerPostcard) (d : Deployment S) (sys : System S) : Prop where
  gateway : sys.gateway = d.gateway
  engine : sys.engine = d.link.connection.server.engine
  symbolId : d.symbolId = sys.engine.book.symbolId
  commands : ∃ taken coming, sys.toEngine = taken ++ coming ∧ taken.map inbound = d.link.connection.waiting ∧
    d.link.sent = coming.map (commandFrame postcard)
  events : ∃ come coming left, sys.toGateway = come ++ (coming ++ left) ∧ d.events = come.map eventMessage ∧
    d.link.connection.fed.drop d.link.read = coming.map (eventFrame postcard) ∧
    left.map outbound = d.link.connection.egress ++ d.link.connection.thread.unsent
  reading : d.link.reading = true
  up : Up d.link.connection
  read : d.link.read ≤ d.link.connection.fed.length

namespace Coupled
open EngineServer
variable {d : Deployment S} {sys : System S}

omit [Slab S Order] in
theorem start (postcard : ServerPostcard) (gateway : GatewayContext) {symbolId : SymbolId} {sv : Server S}
    (hsym : symbolId = sv.engine.book.symbolId) :
    Coupled postcard (Deployment.start gateway symbolId sv) ⟨gateway,[],sv.engine,[]⟩ where
  gateway := rfl
  engine := rfl
  symbolId := hsym
  commands := ⟨[],[],rfl,rfl,rfl⟩
  events := ⟨[],[],[],rfl,rfl,rfl,rfl⟩
  reading := rfl
  up := ⟨.inl rfl,by simp [Deployment.start,EngineLink.connect,Connection.accept],
    by simp [Deployment.start,EngineLink.connect,Connection.accept],rfl⟩
  read := Nat.le_refl _

/-! ### The engine server -/

/-- Steps that read no frame and process no command are not seen. -/
theorem silent (h : Coupled postcard d sys) {c' : Connection S} {l l' : EngineServer.Ledger}
    (hs : Stepped postcard crc32 args d.link.connection l c' l') (hframes : l'.frames = l.frames)
    (hprocessed : l'.processed = l.processed) (hup : Up c') :
    Coupled postcard { d with link := { d.link with connection := c' } } sys := by
  obtain ⟨hgateway,hengine,hsym,hcommands,hevents,hreading,hold,hread⟩ := h
  cases hs with
  | idle => exact ⟨hgateway,hengine,hsym,hcommands,hevents,hreading,hup,hread⟩
  | ended hr => exact absurd rfl (hup.reader_ne (by simp) (by simp))
  | skipped hr => exact absurd hframes (Nat.succ_ne_self _)
  | dropped inb hr hfull => exact absurd hframes (Nat.succ_ne_self _)
  | accepted inb hr hroom => exact absurd hframes (Nat.succ_ne_self _)
  | asked hr => exact absurd hframes (Nat.succ_ne_self _)
  | unheard hr => exact absurd hframes (Nat.succ_ne_self _)
  | counted hr => exact ⟨hgateway,hengine,hsym,hcommands,hevents,hreading,hup,hread⟩
  | relayed orders hr hw => exact absurd hr (hold.reader_ne (by simp) (by simp))
  | unrelayed orders hr hw => exact absurd hr (hold.reader_ne (by simp) (by simp))
  | unanswered hr ht => exact absurd hr (hold.reader_ne (by simp) (by simp))
  | answered ht hr => exact absurd hr (hold.reader_ne (by simp) (by simp))
  | received inb rest ht hq =>
    have hwait : d.link.connection.waiting = inb::rest := by rw [Connection.waiting,ht,hq]; rfl
    rw [hwait] at hcommands
    rw [ht] at hevents
    exact ⟨hgateway,hengine,hsym,hcommands,hevents,hreading,hup,hread⟩
  | processed inb elapsed ht => simp at hprocessed
  | sent connId ev evs ht hw =>
    have hwait : d.link.connection.waiting = d.link.connection.ingress := by rw [Connection.waiting,ht]; rfl
    rw [hwait] at hcommands
    rw [ht] at hevents
    obtain ⟨come,coming,left,hto,hcome,hcoming,hleft⟩ := hevents
    refine ⟨hgateway,hengine,hsym,hcommands,⟨come,coming,left,hto,hcome,hcoming,?_⟩,hreading,hup,hread⟩
    rw [hleft,List.append_assoc]
    rfl
  | cut connId ev evs ht hw => exact absurd hw hold.writer
  | finished connId timestamp ht =>
    have hwait : d.link.connection.waiting = d.link.connection.ingress := by rw [Connection.waiting,ht]; rfl
    rw [hwait] at hcommands
    rw [ht] at hevents
    have hsame := engine_finish postcard crc32 d.link.connection.server timestamp
    exact ⟨hgateway,hengine.trans hsame.symm,hsym,hcommands,hevents,hreading,hup,hread⟩
  | closed ht hq hr => exact absurd hr (hold.reader_ne (by simp) (by simp))
  | ticked hw => exact ⟨hgateway,hengine,hsym,hcommands,hevents,hreading,hup,hread⟩
  | fed out rest hw he =>
    obtain ⟨come,coming,left,hto,hcome,hcoming,hleft⟩ := hevents
    rw [he] at hleft
    obtain ⟨y,left,rfl,rfl,hrest⟩ := List.map_eq_cons_iff.mp hleft
    refine ⟨hgateway,hengine,hsym,hcommands,⟨come,coming ++ [y],left,?_,hcome,?_,hrest⟩,hreading,hup,?_⟩
    · rw [hto,List.append_assoc]
      rfl
    · rw [List.drop_append_of_le_length hread,hcoming,List.map_append]
      rfl
    · rw [List.length_append]
      exact Nat.le_succ_of_le hread
  | flushed hw he => exact ⟨hgateway,hengine,hsym,hcommands,hevents,hreading,hup,hread⟩
  | responded m rest hw hm =>
    rw [hold.responses] at hm
    cases hm
  | stopped => exact absurd rfl hup.writer

/-- The command in hand is the first one on its way in the system. -/
theorem processed (h : Coupled postcard d sys) {inb : Inbound} (ht : d.link.connection.thread = .received inb)
    (elapsed : Bool) : Coupled postcard
      { d with link := { d.link with connection := d.link.connection.process postcard crc32 elapsed } }
      sys.engineStep.1 := by
  obtain ⟨hgateway,hengine,hsym,hcommands,hevents,hreading,hold,hread⟩ := h
  obtain ⟨taken,coming,hto,htaken,hsent⟩ := hcommands
  have hwait : d.link.connection.waiting = inb::d.link.connection.ingress := by rw [Connection.waiting,ht]; rfl
  rw [hwait] at htaken
  obtain ⟨x,taken,rfl,rfl,hrest⟩ := List.map_eq_cons_iff.mp htaken
  rw [ht] at hevents
  obtain ⟨come,coming',left,hout,hcome,hcoming,hleft⟩ := hevents
  have hstep : sys.engineStep.1 = { sys with
      toEngine := taken ++ coming
      engine := sys.engine.live x.command
      toGateway := sys.toGateway ++ (sys.engine.process x.command).2.map fun event => (x.connId,event) } := by
    rw [System.engineStep,hto]
    rfl
  have hprocess : d.link.connection.process postcard crc32 elapsed = { d.link.connection with
      metrics := d.link.connection.metrics.queueDec
      server := (d.link.connection.server.journaled postcard crc32 x.command elapsed).processed x.command
      thread := .sending x.connId (sys.engine.process x.command).2 } := by
    rw [Connection.process,ht,hengine]
    rfl
  rw [hstep,hprocess]
  refine ⟨hgateway,congrArg (fun e => Engine.live e x.command) hengine,?_,⟨taken,coming,rfl,hrest,hsent⟩,
    ⟨come,coming',left ++ (sys.engine.process x.command).2.map fun event => (x.connId,event),?_,hcome,hcoming,?_⟩,
    hreading,⟨hold.reader,by simp,hold.writer,hold.responses⟩,hread⟩
  · rw [hsym]
    exact (sys.engine.symbolId_process x.command).symm
  · rw [hout]
    simp only [List.append_assoc]
  · rw [List.map_append,hleft,List.map_map]
    simp only [EngineThread.unsent,List.append_nil]
    rfl

omit [Slab S Order] in
/-- With room in the queue, the next frame's command is taken. -/
theorem arrive (h : Coupled postcard d sys) (hroom : d.link.connection.ingress.length < args.ingressCap)
    (hfits : ∀ bytes ∈ d.link.sent.head?, bytes.length ≤ args.maxFrame) :
    Coupled postcard { d with link := d.link.arrive postcard args } sys := by
  obtain ⟨hgateway,hengine,hsym,⟨taken,coming,hto,htaken,hsent⟩,hevents,hreading,hold,hread⟩ := h
  unfold EngineLink.arrive
  split
  case h_2 =>
    exact ⟨hgateway,hengine,hsym,⟨taken,coming,hto,htaken,hsent⟩,hevents,hreading,hold,hread⟩
  case h_1 bytes rest hnext hframes =>
    have hsmall : bytes.length ≤ args.maxFrame := hfits bytes (by rw [hframes]; rfl)
    rw [hsent] at hframes
    obtain ⟨x,coming,rfl,rfl,hrest⟩ := List.map_eq_cons_iff.mp hframes
    have hdecode : postcard.toEngine.decode (commandFrame postcard x) = some (.execute x) :=
      postcard.toEngine.decode_encode _
    have htake : d.link.connection.readFrame postcard args (commandFrame postcard x) = { d.link.connection with
        metrics := d.link.connection.metrics.incFramesIn
        ingress := d.link.connection.ingress ++ [inbound x]
        reader := .counting } := by
      rw [Connection.readFrame,if_neg (not_not.mpr hnext),if_neg (Nat.not_lt.mpr hsmall),hdecode]
      exact if_pos ⟨hold.thread,hroom⟩
    rw [htake]
    refine ⟨hgateway,hengine,hsym,⟨taken ++ [x],coming,?_,?_,hrest.symm⟩,hevents,hreading,
      ⟨.inr rfl,hold.thread,hold.writer,hold.responses⟩,hread⟩
    · rw [hto,List.append_assoc]
      rfl
    · rw [List.map_append,htaken,Connection.waiting,List.append_assoc]
      rfl

/-! ### The gateway -/

omit [Slab S Order] in
/-- The reader task gets the next event in a frame. -/
theorem readEvent (h : Coupled postcard d sys)
    (hfits : ∀ bytes ∈ d.link.connection.fed[d.link.read]?, bytes.length ≤ EngineRouter.maxFrameLength) :
    Coupled postcard (d.readEvent postcard) sys := by
  obtain ⟨hgateway,hengine,hsym,hcommands,hevents,hreading,hold,hread⟩ := h
  obtain ⟨come,coming,left,hto,hcome,hcoming,hleft⟩ := hevents
  unfold Deployment.readEvent
  cases hframe : d.link.connection.fed[d.link.read]? with
  | none =>
    rw [EngineLink.readEvent_none hframe]
    refine ⟨hgateway,hengine,hsym,hcommands,⟨come,coming,left,hto,?_,hcoming,hleft⟩,hreading,hold,hread⟩
    rw [List.append_nil,hcome]
  | some bytes =>
    have hsmall : bytes.length ≤ EngineRouter.maxFrameLength := hfits bytes hframe
    obtain ⟨hlt,hget⟩ := List.getElem?_eq_some_iff.mp hframe
    rw [List.drop_eq_getElem_cons hlt,hget] at hcoming
    obtain ⟨y,coming,rfl,rfl,hrest⟩ := List.map_eq_cons_iff.mp hcoming.symm
    have hdecode : postcard.toGateway.decode (eventFrame postcard y) = some (eventMessage y) :=
      postcard.toGateway.decode_encode _
    have hnext : d.link.readEvent postcard = ({ d.link with read := d.link.read+1 },[eventMessage y]) := by
      rw [EngineLink.readEvent_next hreading hframe hsmall,hdecode]
      rfl
    rw [hnext]
    refine ⟨hgateway,hengine,hsym,hcommands,⟨come ++ [y],coming,left,?_,?_,hrest.symm,hleft⟩,hreading,
      hold,hlt⟩
    · rw [hto,List.append_assoc]
      rfl
    · rw [hcome,List.map_append]
      rfl

omit [Slab S Order] in
/-- The next message is the next event on its way in the system. -/
theorem handleResponse (h : Coupled postcard d sys) {y : UInt64 × Event} {rest : List EngineToGateway}
    (hq : d.events = eventMessage y::rest) :
    Coupled postcard d.handleResponse.1 sys.deliver.1 ∧ sys.deliver.2 = d.handleResponse.2 := by
  obtain ⟨hgateway,hengine,hsym,hcommands,hevents,hreading,hold,hread⟩ := h
  obtain ⟨come,coming,left,hto,hcome,hcoming,hleft⟩ := hevents
  rw [hq] at hcome
  obtain ⟨z,come,rfl,hz,hrest⟩ := List.map_eq_cons_iff.mp hcome.symm
  obtain rfl : z = y := by
    obtain ⟨connId,event⟩ := z
    cases hz
    rfl
  have hdeliver : sys.deliver = ({ sys with
      gateway := (sys.gateway.handleEngineEvent z.1 z.2).1, toGateway := come ++ (coming ++ left) },
      (sys.gateway.handleEngineEvent z.1 z.2).2) := by
    rw [System.deliver,hto]
    rfl
  have hhandle : d.handleResponse = ({ d with
      gateway := (d.gateway.handleEngineEvent z.1 z.2).1, events := rest },
      (d.gateway.handleEngineEvent z.1 z.2).2) := by
    rw [Deployment.handleResponse,hq]
    rfl
  rw [hdeliver,hhandle,hgateway]
  exact ⟨⟨rfl,hengine,hsym,hcommands,⟨come,coming,left,rfl,hrest.symm,hcoming,hleft⟩,hreading,hold,hread⟩,rfl⟩

omit [Slab S Order] in
theorem frame (h : Coupled postcard d sys) {connId : UInt64} {bytes : List UInt8} {up : Bool}
    (htakes : d.takesFrame postcard connId bytes up = true) :
    Coupled postcard (d.frame postcard connId bytes up).1 (sys.frame connId bytes up).1 ∧
      (sys.frame connId bytes up).2 = (d.frame postcard connId bytes up).2 := by
  obtain ⟨hgateway,hengine,hsym,⟨taken,coming,hto,htaken,hsent⟩,hevents,hreading,hold,hread⟩ := h
  have hroutes : sys.routes up = d.routesFrame postcard connId bytes up := by
    funext s
    rw [routesFrame,htakes,Bool.true_and,System.routes,Deployment.routes,hsym]
  unfold Deployment.frame System.frame
  rw [← hroutes,hgateway]
  obtain ⟨g,out,replies⟩ := d.gateway.handleFrame connId bytes (sys.routes up)
  cases out with
  | none =>
    refine ⟨⟨rfl,hengine,hsym,⟨taken,coming,?_,htaken,hsent⟩,hevents,hreading,hold,hread⟩,rfl⟩
    rw [← hto]
    exact List.append_nil _
  | some x =>
    refine ⟨⟨rfl,hengine,hsym,⟨taken,coming ++ [x],?_,htaken,?_⟩,hevents,hreading,hold,hread⟩,rfl⟩
    · rw [hto]
      exact List.append_assoc ..
    · rw [List.map_append,← hsent]
      rfl

/-! ### The step -/

theorem serverStep (h : Coupled postcard d sys) {a : EngineServer.Action}
    (hkeeps : breaks postcard args d.link.connection a = false)
    (hprocess : ∀ elapsed inb, a = .process elapsed → d.link.connection.thread ≠ .received inb) :
    Coupled postcard { d with link := d.link.serverStep postcard crc32 args a } sys := by
  cases a with
  | frame bytes => exact h
  | process elapsed =>
    have hsame : d.link.connection.process postcard crc32 elapsed = d.link.connection := by
      rw [Connection.process]
      split
      case h_1 inb ht => exact absurd ht (hprocess elapsed inb rfl)
      case h_2 => rfl
    have hstep : d.link.serverStep postcard crc32 args (.process elapsed) = d.link := by
      change { d.link with connection := d.link.connection.process postcard crc32 elapsed } = d.link
      rw [hsame]
    rw [hstep]
    exact h
  | answer =>
    refine h.silent (step_cases d.link.connection EngineServer.Ledger.empty .answer) ?_ ?_
      (h.up.step (by simp) hkeeps)
    · simp only [EngineServer.Ledger.step,EngineServer.Ledger.answer]
      split_ifs <;> rfl
    · simp only [EngineServer.Ledger.step,EngineServer.Ledger.answer]
      split_ifs <;> rfl
  | hangUp => cases hkeeps
  | fail => cases hkeeps
  | _ =>
    exact h.silent (step_cases d.link.connection EngineServer.Ledger.empty _) rfl rfl
      (h.up.step (by simp) hkeeps)

end Coupled

theorem coupled_step {d : Deployment S} {sys : System S} {a : Action} (h : Coupled postcard d sys)
    (ha : Lossless postcard args d a) :
    Coupled postcard (d.step postcard crc32 args a).1 (System.machine.run sys (d.systemActions a)).1 ∧
      (System.machine.run sys (d.systemActions a)).2 = (d.step postcard crc32 args a).2 := by
  cases a with
  | connect decodeCommand =>
    rw [systemActions,Machine.run_one]
    refine ⟨⟨?_,h.engine,h.symbolId,h.commands,h.events,h.reading,h.up,h.read⟩,rfl⟩
    exact congrArg (fun g => GatewayContext.connect g decodeCommand) h.gateway
  | disconnect connId =>
    rw [systemActions,Machine.run_one]
    refine ⟨⟨?_,h.engine,h.symbolId,h.commands,h.events,h.reading,h.up,h.read⟩,rfl⟩
    exact congrArg (fun g => GatewayContext.disconnect g connId) h.gateway
  | frame connId bytes up =>
    rw [systemActions,Machine.run_one]
    exact h.frame ha
  | arrive => exact ⟨h.arrive ha.1 ha.2,rfl⟩
  | readEvent => exact ⟨h.readEvent ha,rfl⟩
  | handleResponse =>
    obtain ⟨come,coming,left,hto,hcome,-⟩ := h.events
    cases come with
    | nil =>
      have hidle : d.handleResponse = (d,[]) := by rw [Deployment.handleResponse,hcome]; rfl
      rw [systemActions,hcome,step,hidle]
      exact ⟨h,rfl⟩
    | cons y come =>
      have hone : d.systemActions .handleResponse = [.deliver] := by rw [systemActions,hcome]; rfl
      rw [hone,Machine.run_one]
      exact h.handleResponse hcome
  | server a =>
    by_cases hseen : ∃ elapsed inb, a = .process elapsed ∧ d.link.connection.thread = .received inb
    · obtain ⟨elapsed,inb,rfl,ht⟩ := hseen
      have hone : d.systemActions (.server (.process elapsed)) = [.engine] := by rw [systemActions,ht]
      rw [hone,Machine.run_one]
      exact ⟨h.processed ht elapsed,rfl⟩
    · have hnone : d.systemActions (.server a) = [] := by
        cases a with
        | process elapsed =>
          rw [systemActions]
          split
          case h_1 inb ht => exact absurd ⟨elapsed,inb,rfl,ht⟩ hseen
          case h_2 => rfl
        | _ => rfl
      rw [hnone]
      exact ⟨h.serverStep ha fun elapsed inb hproc ht => hseen ⟨elapsed,inb,hproc,ht⟩,rfl⟩

def simulation (postcard : ServerPostcard) (crc32 : List UInt8 → UInt32) (args : EngineServer.Args) :
    Machine.Simulation (machine postcard crc32 args : Machine (Deployment S) Action (UInt64 × Event))
      (System.machine : Machine (System S) HighPerfTrading.Action (UInt64 × Event)) (Lossless postcard args) where
  related := Coupled postcard
  actions := systemActions
  step := coupled_step

/-! ### Runs -/

def clientAction : Action → Option HighPerfTrading.Action
  | .connect decodeCommand => some (.connect decodeCommand)
  | .disconnect connId => some (.disconnect connId)
  | .frame connId bytes up => some (.frame connId bytes up)
  | _ => none

def isClient : HighPerfTrading.Action → Bool
  | .engine => false
  | .deliver => false
  | _ => true

omit [Slab S Order] in
theorem clients_systemActions (d : Deployment S) (a : Action) :
    (d.systemActions a).filter isClient = (clientAction a).toList := by
  cases a with
  | server a =>
    cases a with
    | process elapsed => rw [systemActions]; split <;> rfl
    | _ => rfl
  | handleResponse => rw [systemActions]; split <;> rfl
  | _ => rfl

theorem clients_allActions (d : Deployment S) (as : List Action) :
    ((simulation postcard crc32 args).allActions d as).filter isClient = as.filterMap clientAction := by
  induction as generalizing d with
  | nil => rfl
  | cons a as ih =>
    rw [Machine.Simulation.allActions,List.filter_append,ih]
    change (d.systemActions a).filter isClient ++ _ = _
    rw [clients_systemActions,List.filterMap_cons]
    cases clientAction a <;> rfl

/-- However the tasks of the engine server and of the gateway run, as long as the network does not fail, the engine's
queue has room and no frame is too long, the clients of the deployment get what they get from the system on the same
actions of theirs, and the two agree on the gateway, the engine and what is under way. The router's symbol is to be
that of the engine's book. -/
theorem refines_system (postcard : ServerPostcard) (crc32 : List UInt8 → UInt32) {args : EngineServer.Args}
    (gateway : GatewayContext) {symbolId : SymbolId} {sv : Server S} (hsym : symbolId = sv.engine.book.symbolId)
    {as : List Action}
    (has : (machine postcard crc32 args).Obeys (Lossless postcard args) (start gateway symbolId sv) as) :
    ∃ as', as'.filter isClient = as.filterMap clientAction ∧
      let d := (machine postcard crc32 args).run (start gateway symbolId sv) as
      let r := System.machine.run (⟨gateway,[],sv.engine,[]⟩ : System S) as'
      Coupled postcard d.1 r.1 ∧ r.2 = d.2 :=
  ⟨_,clients_allActions _ as,(simulation postcard crc32 args).run (Coupled.start postcard gateway hsym) has⟩

/-- The first account connects, authenticates and buys. Its order comes to the engine, and the answers to the gateway. -/
def placedBuy : List Action :=
  [.connect fun bytes => (BinaryCodec.decodeCommand bytes).toOption,
    .frame 1 (BinaryCodec.encodeCommand (.authenticate ⟨"test-key-1"⟩)) true,
    .frame 1 (BinaryCodec.encodeCommand (.newOrder ⟨1,7,1,1,.buy,100,5,.gtc,⟨false⟩⟩)) true,
    .arrive,.server .receive,.server (.process true),.server .count,.server .send,.server .tick,.server .feed,
    .server .send,.server (.finish 0),.server .feed,.readEvent,.server .flush,.readEvent]

/-- Frames of up to 103 bytes and a queue for one command. -/
def smallArgs : EngineServer.Args := ⟨103,1,Nat.one_pos⟩

def smallMachine : Machine (Deployment (FreeListSlab Order)) Action (UInt64 × Event) :=
  machine .standard Crc32.hash smallArgs

def smallDeployment : Deployment (FreeListSlab Order) :=
  start (System.start twoAccounts twoKeys : System (FreeListSlab Order)).gateway EngineServer.freshServer.engine.book.symbolId
    EngineServer.freshServer

theorem placedBuy_refines : ∃ sys : System (FreeListSlab Order),
    Coupled .standard (smallMachine.run smallDeployment (placedBuy ++ [.handleResponse,.handleResponse])).1 sys ∧
      (smallMachine.run smallDeployment (placedBuy ++ [.handleResponse,.handleResponse])).2.map Prod.snd =
        [.authSuccess ⟨1⟩,.bookTop ⟨1,1,some 100,some 5,none,none⟩,.ack ⟨2,1,7⟩] := by
  have hlossless : smallMachine.Obeys (Lossless .standard smallArgs) smallDeployment
      (placedBuy ++ [.handleResponse,.handleResponse]) := by decide +kernel
  obtain ⟨as',-,hcoupled,-⟩ := refines_system .standard Crc32.hash _ rfl hlossless
  exact ⟨_,hcoupled,by decide +kernel⟩

end Deployment
end HighPerfTrading
