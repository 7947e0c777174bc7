import HighPerfTrading.Engine.OneAnswer
import HighPerfTrading.Engine.Replay
import HighPerfTrading.EngineServer.Steps

/-! What the engine server does with the gateway's commands, whatever the order in which its three tasks run, and
wherever the connection or one of them ends. -/
namespace HighPerfTrading
namespace EngineServer
variable {S : Type}

/-! ### Commands -/

def EngineThread.held : EngineThread → List Inbound
  | .received inb => [inb]
  | _ => []

/-- The commands taken by the queue that the engine has not yet processed. -/
def Connection.waiting (c : Connection S) : List Inbound := c.thread.held ++ c.ingress

/-- The command that is in the queue but not in its gauge. -/
def Connection.uncounted (c : Connection S) : ℤ := if c.reader = .counting then 1 else 0

/-- The way of the commands into the engine. -/
structure Intake (args : Args) (c : Connection S) (l : Ledger) : Prop where
  accepted : l.accepted = l.processed ++ c.waiting
  offered : l.accepted.Sublist l.offered
  room : c.ingress.length ≤ args.ingressCap
  depth : c.metrics.engineInQueueDepth = Int64.ofInt (c.waiting.length-c.uncounted)
  frames : c.metrics.framesIn = UInt64.ofNat l.frames

namespace Intake
variable [Slab S Order] {postcard : ServerPostcard} {crc32 : List UInt8 → UInt32} {args : Args} {c c' : Connection S}
  {l l' : Ledger}

theorem step (h : Intake args c l) (hs : Stepped postcard crc32 args c l c' l') : Intake args c' l' := by
  obtain ⟨hacc,hoff,hroom,hdepth,hframes⟩ := h
  have hin : c.metrics.framesIn+1 = UInt64.ofNat (l.frames+1) := by rw [hframes,UInt64.ofNat_add]; rfl
  have hun {r : Reader} (hr : c.reader = r) : c.uncounted = if r = .counting then 1 else 0 := by
    rw [Connection.uncounted,hr]
  cases hs with
  | idle => exact ⟨hacc,hoff,hroom,hdepth,hframes⟩
  | ended hr => exact ⟨hacc,hoff,hroom,hdepth.trans (by rw [hun hr]; rfl),hframes⟩
  | skipped hr => exact ⟨hacc,hoff,hroom,hdepth,hin⟩
  | unheard hr => exact ⟨hacc,hoff,hroom,hdepth,hin⟩
  | dropped inb hr hfull => exact ⟨hacc,hoff.trans (List.sublist_append_left ..),hroom,hdepth,hin⟩
  | accepted inb hr hlt =>
    refine ⟨?_,hoff.append (List.Sublist.refl _),?_,?_,hin⟩
    · rw [hacc,List.append_assoc,Connection.waiting,List.append_assoc]
      rfl
    · rw [List.length_append]
      exact hlt
    · rw [hun hr] at hdepth
      refine hdepth.trans (congrArg Int64.ofInt ?_)
      simp [Connection.waiting,Connection.uncounted]
      omega
  | asked hr => exact ⟨hacc,hoff,hroom,hdepth.trans (by rw [hun hr]; rfl),hin⟩
  | counted hr =>
    refine ⟨hacc,hoff,hroom,?_,hframes⟩
    rw [hun hr,if_pos rfl,Int64.ofInt_sub] at hdepth
    change c.metrics.engineInQueueDepth+1 = Int64.ofInt (c.waiting.length-0)
    rw [hdepth,sub_zero]
    exact sub_add_cancel _ _
  | relayed orders hr hw => exact ⟨hacc,hoff,hroom,hdepth.trans (by rw [hun hr]; rfl),hframes⟩
  | unrelayed orders hr hw => exact ⟨hacc,hoff,hroom,hdepth.trans (by rw [hun hr]; rfl),hframes⟩
  | unanswered hr ht => exact ⟨hacc,hoff,hroom,hdepth.trans (by rw [hun hr]; rfl),hframes⟩
  | received inb rest ht hq =>
    have hsame : c.waiting = inb::rest := by rw [Connection.waiting,ht,hq]; rfl
    rw [hsame] at hacc hdepth
    refine ⟨hacc,hoff,?_,hdepth,hframes⟩
    rw [hq,List.length_cons] at hroom
    exact Nat.le_of_succ_le hroom
  | processed inb elapsed ht =>
    have hone : c.waiting = inb::c.ingress := by rw [Connection.waiting,ht]; rfl
    refine ⟨?_,hoff,hroom,?_,hframes⟩
    · rw [hacc,hone,List.append_assoc]
      rfl
    · rw [hone,List.length_cons,Nat.cast_succ,add_sub_right_comm,Int64.ofInt_add] at hdepth
      change c.metrics.engineInQueueDepth-1 = Int64.ofInt (c.ingress.length-c.uncounted)
      rw [hdepth]
      exact add_sub_cancel_right _ _
  | sent connId ev evs ht hw =>
    have hsame : c.waiting = c.ingress := by rw [Connection.waiting,ht]; rfl
    rw [hsame] at hacc hdepth
    exact ⟨hacc,hoff,hroom,hdepth,hframes⟩
  | cut connId ev evs ht hw =>
    have hsame : c.waiting = c.ingress := by rw [Connection.waiting,ht]; rfl
    rw [hsame] at hacc hdepth
    exact ⟨hacc,hoff,hroom,hdepth,hframes⟩
  | finished connId timestamp ht =>
    have hsame : c.waiting = c.ingress := by rw [Connection.waiting,ht]; rfl
    rw [hsame] at hacc hdepth
    exact ⟨hacc,hoff,hroom,hdepth,hframes⟩
  | closed ht hq hr =>
    have hsame : c.waiting = c.ingress := by rw [Connection.waiting,ht]; rfl
    rw [hsame] at hacc hdepth
    exact ⟨hacc,hoff,hroom,hdepth,hframes⟩
  | answered ht hr => exact ⟨hacc,hoff,hroom,hdepth.trans (by rw [hun hr]; rfl),hframes⟩
  | ticked hw => exact ⟨hacc,hoff,hroom,hdepth,hframes⟩
  | fed out rest hw he => exact ⟨hacc,hoff,hroom,hdepth,hframes⟩
  | flushed hw he => exact ⟨hacc,hoff,hroom,hdepth,hframes⟩
  | responded m rest hw hm => exact ⟨hacc,hoff,hroom,hdepth,hframes⟩
  | stopped => exact ⟨hacc,hoff,hroom,hdepth,hframes⟩
end Intake

/-! ### Events -/

def clientEvent : EngineToGateway → Option Outbound
  | .clientEvent connId ev _ => some ⟨connId,ev⟩
  | _ => none

def reportedOrders : EngineToGateway → Option (List OrderSnapshot)
  | .allOrders orders => some orders
  | _ => none

/-- What the gateway reads from the frames. -/
def messages (postcard : ServerPostcard) (frames : List (List UInt8)) : List EngineToGateway :=
  frames.filterMap postcard.toGateway.decode

theorem messages_put (postcard : ServerPostcard) (frames : List (List UInt8)) (m : EngineToGateway) :
    messages postcard (frames ++ [postcard.toGateway.encode m]) = messages postcard frames ++ [m] := by
  simp [messages]

def EngineThread.unsent : EngineThread → List Outbound
  | .sending connId evs => evs.map (Outbound.mk connId)
  | _ => []

def Connection.delivered (c : Connection S) (postcard : ServerPostcard) : List Outbound :=
  (messages postcard c.fed).filterMap clientEvent

theorem delivered_feed (postcard : ServerPostcard) (frames : List (List UInt8)) (out : Outbound) :
    (messages postcard (frames ++ [postcard.toGateway.encode (.clientEvent out.connId out.ev none)])).filterMap
      clientEvent = (messages postcard frames).filterMap clientEvent ++ [out] := by
  rw [messages_put,List.filterMap_append]
  rfl

theorem delivered_respond (postcard : ServerPostcard) (frames : List (List UInt8)) {m : EngineToGateway}
    (hm : clientEvent m = none) : (messages postcard (frames ++ [postcard.toGateway.encode m])).filterMap clientEvent =
      (messages postcard frames).filterMap clientEvent := by
  rw [messages_put,List.filterMap_append]
  simp [hm]

section Events
variable [Slab S Order]

/-- The events of the engine for the commands, each with the connection of its command. -/
def outputs (e : Engine S) : List Inbound → List Outbound
  | [] => []
  | inb::rest => (e.process inb.cmd).2.map (Outbound.mk inb.connId) ++ outputs (e.live inb.cmd) rest

theorem outputs_append (e : Engine S) (done : List Inbound) (inb : Inbound) : outputs e (done ++ [inb]) =
    outputs e done ++ ((e.liveRun (done.map Inbound.cmd)).process inb.cmd).2.map (Outbound.mk inb.connId) := by
  induction done generalizing e with
  | nil => exact List.append_nil _
  | cons x done ih =>
    rw [List.cons_append,outputs,outputs,ih,List.append_assoc]
    rfl

/-- Snapshots and rotations leave the engine alone. -/
theorem engine_finish (postcard : ServerPostcard) (crc32 : List UInt8 → UInt32) (sv : Server S) (timestamp : UInt64) :
    ((sv.snapshotIfDue postcard crc32).rotateIfDue postcard crc32 timestamp).engine = sv.engine := by
  unfold Server.rotateIfDue Server.snapshotIfDue
  split_ifs <;> rfl

/-- The way of the events out of the engine. -/
structure Output (postcard : ServerPostcard) (sv : Server S) (c : Connection S) (l : Ledger) : Prop where
  engine : c.server.engine = sv.engine.liveRun (l.processed.map Inbound.cmd)
  inOrder : c.delivered postcard <+: outputs sv.engine l.processed
  intact : c.writer ≠ .returned → c.delivered postcard ++ (c.egress ++ c.thread.unsent) = outputs sv.engine l.processed
  quiet : ∀ m ∈ c.responses, clientEvent m = none
  frames : c.metrics.framesOut = UInt64.ofNat c.fed.length
  flushed : c.flushed ≤ c.fed.length
  calm : c.writer = .selecting → c.flushed = c.fed.length

namespace Output
variable {postcard : ServerPostcard} {crc32 : List UInt8 → UInt32} {args : Args} {sv : Server S} {c c' : Connection S}
  {l l' : Ledger}

theorem step (h : Output postcard sv c l) (hs : Stepped postcard crc32 args c l c' l') : Output postcard sv c' l' := by
  obtain ⟨hengine,horder,hintact,hquiet,hframes,hflushed,hcalm⟩ := h
  have hout : c.metrics.framesOut+1 = UInt64.ofNat (c.fed.length+1) := by rw [hframes,UInt64.ofNat_add]; rfl
  cases hs with
  | idle => exact ⟨hengine,horder,hintact,hquiet,hframes,hflushed,hcalm⟩
  | ended hr => exact ⟨hengine,horder,hintact,hquiet,hframes,hflushed,hcalm⟩
  | skipped hr => exact ⟨hengine,horder,hintact,hquiet,hframes,hflushed,hcalm⟩
  | unheard hr => exact ⟨hengine,horder,hintact,hquiet,hframes,hflushed,hcalm⟩
  | dropped inb hr hfull => exact ⟨hengine,horder,hintact,hquiet,hframes,hflushed,hcalm⟩
  | accepted inb hr hlt => exact ⟨hengine,horder,hintact,hquiet,hframes,hflushed,hcalm⟩
  | asked hr => exact ⟨hengine,horder,hintact,hquiet,hframes,hflushed,hcalm⟩
  | counted hr => exact ⟨hengine,horder,hintact,hquiet,hframes,hflushed,hcalm⟩
  | relayed orders hr hw =>
    refine ⟨hengine,horder,hintact,fun m hm => ?_,hframes,hflushed,hcalm⟩
    rcases List.mem_append.mp hm with hm | hm
    · exact hquiet m hm
    · rw [List.mem_singleton.mp hm]
      rfl
  | unrelayed orders hr hw => exact ⟨hengine,horder,hintact,hquiet,hframes,hflushed,hcalm⟩
  | unanswered hr ht => exact ⟨hengine,horder,hintact,hquiet,hframes,hflushed,hcalm⟩
  | received inb rest ht hq =>
    rw [ht] at hintact
    exact ⟨hengine,horder,hintact,hquiet,hframes,hflushed,hcalm⟩
  | processed inb elapsed ht =>
    have hnew := outputs_append sv.engine l.processed inb
    rw [← hengine] at hnew
    rw [ht] at hintact
    refine ⟨?_,?_,fun hw => ?_,hquiet,hframes,hflushed,hcalm⟩
    · rw [List.map_append,Engine.liveRun,List.foldl_append]
      exact congrArg (fun e => Engine.live e inb.cmd) hengine
    · rw [hnew]
      exact horder.trans (List.prefix_append ..)
    · rw [hnew,← hintact hw,List.append_assoc,List.append_assoc]
      rfl
  | sent connId ev evs ht hw =>
    rw [ht] at hintact
    refine ⟨hengine,horder,fun hw' => ?_,hquiet,hframes,hflushed,hcalm⟩
    rw [← hintact hw',List.append_assoc]
    rfl
  | cut connId ev evs ht hw =>
    exact ⟨hengine,horder,fun hw' => absurd hw hw',hquiet,hframes,hflushed,hcalm⟩
  | finished connId timestamp ht =>
    rw [ht] at hintact
    refine ⟨?_,horder,hintact,hquiet,hframes,hflushed,hcalm⟩
    rw [← hengine]
    exact engine_finish postcard crc32 c.server timestamp
  | closed ht hq hr =>
    rw [ht] at hintact
    exact ⟨hengine,horder,hintact,hquiet,hframes,hflushed,hcalm⟩
  | answered ht hr => exact ⟨hengine,horder,hintact,hquiet,hframes,hflushed,hcalm⟩
  | ticked hw =>
    refine ⟨hengine,horder,fun _ => hintact (by simp [hw]),hquiet,hframes,hflushed,fun hw' => ?_⟩
    cases hw'
  | fed out rest hw he =>
    have hintact := hintact (by simp [hw])
    have hmore := delivered_feed postcard c.fed out
    rw [he] at hintact
    have hall : (c.delivered postcard ++ [out]) ++ (rest ++ c.thread.unsent) = outputs sv.engine l.processed := by
      rw [← hintact,List.append_assoc]
      rfl
    refine ⟨hengine,?_,fun _ => ?_,hquiet,?_,?_,fun hw' => ?_⟩
    · rw [Connection.delivered,hmore,← hall]
      exact List.prefix_append ..
    · rw [Connection.delivered,hmore]
      exact hall
    · rw [List.length_append]
      exact hout
    · rw [List.length_append]
      exact Nat.le_succ_of_le hflushed
    · exact absurd (hw.symm.trans hw') (by simp)
  | flushed hw he =>
    exact ⟨hengine,horder,fun _ => hintact (by simp [hw]),hquiet,hframes,Nat.le_refl _,fun _ => rfl⟩
  | responded m rest hw hm =>
    have hnone : clientEvent m = none := hquiet m (by rw [hm]; exact List.mem_cons_self ..)
    have hsame := delivered_respond postcard c.fed hnone
    have hrest : ∀ x ∈ rest, clientEvent x = none := fun x hx => hquiet x (by rw [hm]; exact List.mem_cons_of_mem _ hx)
    refine ⟨hengine,?_,fun hw' => ?_,hrest,?_,?_,fun _ => ?_⟩
    · rw [Connection.delivered,hsame]
      exact horder
    · rw [Connection.delivered,hsame]
      exact hintact hw'
    · rw [List.length_append]
      exact hout
    · rw [List.length_append]
      exact Nat.le_refl _
    · rw [List.length_append]
      rfl
  | stopped =>
    refine ⟨hengine,horder,fun hw => absurd rfl hw,by simp [Connection.writerReturns],hframes,hflushed,fun hw => ?_⟩
    cases hw

end Output

/-! ### Runs -/

/-- What holds of a connection in every run from a recovered server. -/
structure Sound (postcard : ServerPostcard) (args : Args) (sv : Server S) (c : Connection S) (l : Ledger) : Prop where
  intake : Intake args c l
  output : Output postcard sv c l

variable {postcard : ServerPostcard} {crc32 : List UInt8 → UInt32} {args : Args} {sv : Server S}

theorem Sound.step {c c' : Connection S} {l l' : Ledger} (h : Sound postcard args sv c l)
    (hs : Stepped postcard crc32 args c l c' l') : Sound postcard args sv c' l' :=
  ⟨h.intake.step hs,h.output.step hs⟩

omit [Slab S Order] in
theorem Intake.start (args : Args) (sv : Server S) : Intake args (Connection.accept sv) Ledger.empty :=
  ⟨rfl,List.Sublist.refl _,Nat.zero_le _,rfl,rfl⟩

theorem Sound.start (postcard : ServerPostcard) (args : Args) (sv : Server S) :
    Sound postcard args sv (Connection.accept sv) Ledger.empty where
  intake := .start args sv
  output := ⟨rfl,List.prefix_rfl,fun _ => rfl,by simp [Connection.accept],rfl,Nat.le_refl _,fun _ => rfl⟩

theorem execute_sound (postcard : ServerPostcard) (crc32 : List UInt8 → UInt32) (args : Args) (sv : Server S)
    (as : List Action) :
    Sound postcard args sv (execute postcard crc32 args (.accept sv,.empty) as).1
      (execute postcard crc32 args (.accept sv,.empty) as).2 :=
  execute_keeps (P := Sound postcard args sv) Sound.step (.start postcard args sv) as

/-! ### Answers to commands -/

/-- The answers among events, each with its connection. -/
def answersOf (outs : List Outbound) : List (UInt64 × UInt64) :=
  outs.filterMap fun out => out.ev.answersTo.map fun clientSeq => (out.connId,clientSeq)

/-- The commands that are to be answered. -/
def asksOf (cmds : List Inbound) : List (UInt64 × UInt64) :=
  cmds.filterMap fun inb => inb.cmd.clientSeq.map fun clientSeq => (inb.connId,clientSeq)

omit [Slab S Order] in
@[simp] theorem answersOf_append (xs ys : List Outbound) : answersOf (xs ++ ys) = answersOf xs ++ answersOf ys :=
  List.filterMap_append

omit [Slab S Order] in
@[simp] theorem asksOf_append (xs ys : List Inbound) : asksOf (xs ++ ys) = asksOf xs ++ asksOf ys :=
  List.filterMap_append

theorem answersOf_outputs (e : Engine S) (cmds : List Inbound) : answersOf (outputs e cmds) = asksOf cmds := by
  induction cmds generalizing e with
  | nil => rfl
  | cons inb cmds ih =>
    have hone : answersOf ((e.process inb.cmd).2.map (Outbound.mk inb.connId)) =
        ((e.process inb.cmd).2.filterMap Event.answersTo).map fun clientSeq => (inb.connId,clientSeq) := by
      rw [answersOf,List.filterMap_map,List.map_filterMap]
      rfl
    have hask : asksOf (inb::cmds) =
        (inb.cmd.clientSeq.toList.map fun clientSeq => (inb.connId,clientSeq)) ++ asksOf cmds := by
      rw [asksOf,List.filterMap_cons,asksOf]
      cases inb.cmd.clientSeq <;> rfl
    rw [outputs,answersOf_append,ih,hone,e.process_answers,hask]

namespace Sound
variable {c : Connection S} {l : Ledger}

theorem answered (h : Sound postcard args sv c l) : answersOf (c.delivered postcard) <+: asksOf l.processed ∧
    (c.writer ≠ .returned → answersOf (c.delivered postcard) ++
      (answersOf (c.egress ++ c.thread.unsent) ++ asksOf c.waiting) = asksOf l.accepted) := by
  rw [← answersOf_outputs sv.engine l.processed]
  refine ⟨h.output.inOrder.filterMap _,fun hw => ?_⟩
  rw [h.intake.accepted,asksOf_append,← answersOf_outputs sv.engine l.processed,← h.output.intact hw]
  simp only [answersOf_append,List.append_assoc]

theorem depth (h : Sound postcard args sv c l) :
    c.metrics.engineInQueueDepth = Int64.ofInt (c.ingress.length+c.thread.held.length-c.uncounted) ∧
      c.ingress.length ≤ args.ingressCap ∧ c.thread.held.length ≤ 1 := by
  refine ⟨?_,h.intake.room,?_⟩
  · rw [h.intake.depth,Connection.waiting,List.length_append,Nat.cast_add,add_comm (c.thread.held.length : ℤ)]
  · cases c.thread <;> simp [EngineThread.held]

end Sound

/-! ### The whole server -/

section Server
variable (postcard : ServerPostcard) (crc32 : List UInt8 → UInt32)

/-- Whatever the order of the steps, the queue takes some of the commands that are read and the engine processes
those one by one, in their order. The frames for the gateway carry the events of the processed commands in order and
with the right connection, and while the write loop runs the others are still on their way. -/
theorem delivered_in_order (args : Args) (sv : Server S) (as : List Action) :
    let s := execute postcard crc32 args (.accept sv,.empty) as
    s.2.accepted.Sublist s.2.offered ∧ s.2.accepted = s.2.processed ++ s.1.waiting ∧
      s.1.server.engine = sv.engine.liveRun (s.2.processed.map Inbound.cmd) ∧
      s.1.delivered postcard <+: outputs sv.engine s.2.processed ∧
      (s.1.writer ≠ .returned →
        s.1.delivered postcard ++ (s.1.egress ++ s.1.thread.unsent) = outputs sv.engine s.2.processed) := by
  obtain ⟨hi,ho⟩ := execute_sound postcard crc32 args sv as
  exact ⟨hi.offered,hi.accepted,ho.engine,ho.inOrder,ho.intact⟩

/-- The answers that the gateway gets are those to the processed commands, one to each and in their order. While the
write loop runs, every command that the queue has taken has been answered, or its answer is on its way, or the
command still waits. -/
theorem answered_once (args : Args) (sv : Server S) (as : List Action) :
    let s := execute postcard crc32 args (.accept sv,.empty) as
    answersOf (s.1.delivered postcard) <+: asksOf s.2.processed ∧
      (s.1.writer ≠ .returned → answersOf (s.1.delivered postcard) ++ (answersOf (s.1.egress ++ s.1.thread.unsent) ++
        asksOf s.1.waiting) = asksOf s.2.accepted) :=
  (execute_sound postcard crc32 args sv as).answered

/-- The gauge of the queue is off by the command that has been taken out but not counted down, and by the one that
has been put in but not counted up. The frame counters are right. -/
theorem queue_depth (args : Args) (sv : Server S) (as : List Action) :
    let s := execute postcard crc32 args (.accept sv,.empty) as
    s.1.metrics.engineInQueueDepth = Int64.ofInt (s.1.ingress.length+s.1.thread.held.length-s.1.uncounted) ∧
      s.1.ingress.length ≤ args.ingressCap ∧ s.1.thread.held.length ≤ 1 ∧
      s.1.metrics.framesIn = UInt64.ofNat s.2.frames ∧ s.1.metrics.framesOut = UInt64.ofNat s.1.fed.length := by
  have h := execute_sound postcard crc32 args sv as
  obtain ⟨hdepth,hroom,hheld⟩ := h.depth
  exact ⟨hdepth,hroom,hheld,h.intake.frames,h.output.frames⟩

end Server
end Events
end EngineServer
end HighPerfTrading
