import HighPerfTrading.EngineServer.Delivery

/-! The engine server does not get stuck: while neither its engine thread nor its write loop has ended, their own
steps empty the queue and the channels. -/
namespace HighPerfTrading
namespace EngineServer
variable {S : Type}

/-- The steps that the engine thread and the write loop take by themselves. -/
def Action.own : Action → Bool
  | .receive => true
  | .process _ => true
  | .send => true
  | .finish _ => true
  | .tick => true
  | .feed => true
  | .flush => true
  | _ => false

variable [Slab S Order]

/-- Steps of its own take the server from one state to another. -/
def Reaches (postcard : ServerPostcard) (crc32 : List UInt8 → UInt32) (args : Args) (c c' : Connection S) : Prop :=
  ∃ as : List Action, (∀ a ∈ as, a.own = true) ∧ as.foldl (Connection.step postcard crc32 args) c = c'

variable {postcard : ServerPostcard} {crc32 : List UInt8 → UInt32} {args : Args} {c : Connection S}

namespace Reaches

theorem refl (c : Connection S) : Reaches postcard crc32 args c c := ⟨[],by simp,rfl⟩

theorem trans {c₁ c₂ c₃ : Connection S} (h : Reaches postcard crc32 args c₁ c₂)
    (h' : Reaches postcard crc32 args c₂ c₃) : Reaches postcard crc32 args c₁ c₃ := by
  obtain ⟨as,has,rfl⟩ := h
  obtain ⟨bs,hbs,rfl⟩ := h'
  refine ⟨as ++ bs,fun a ha => ?_,List.foldl_append⟩
  exact (List.mem_append.mp ha).elim (has a) (hbs a)

theorem one {c' : Connection S} (a : Action) (ha : a.own = true) (h : c.step postcard crc32 args a = c') :
    Reaches postcard crc32 args c c' :=
  ⟨[a],by simpa using ha,h⟩

end Reaches

/-! ### The engine thread -/

/-- Where the steps of the engine thread can lead: the read loop and the write loop are as before. -/
structure Frees (postcard : ServerPostcard) (crc32 : List UInt8 → UInt32) (args : Args) (c : Connection S)
    (ingress : List Inbound) (c' : Connection S) : Prop where
  reaches : Reaches postcard crc32 args c c'
  thread : c'.thread = .selecting
  ingress : c'.ingress = ingress
  writer : c'.writer = c.writer
  reader : c'.reader = c.reader

variable (postcard crc32 args)

/-- The events of a command are sent one by one, then the thread takes the next command. -/
theorem exists_finish {connId : UInt64} {evs : List Event} (ht : c.thread = .sending connId evs)
    (hw : c.writer ≠ .returned) : ∃ c', Frees postcard crc32 args c c.ingress c' := by
  induction evs generalizing c with
  | nil =>
    have hstep : c.step postcard crc32 args (.finish 0) = { c with
        server := (c.server.snapshotIfDue postcard crc32).rotateIfDue postcard crc32 0
        thread := .selecting } := by
      rw [Connection.step,Connection.finish,ht]
    exact ⟨_,.one (.finish 0) rfl hstep,rfl,rfl,rfl,rfl⟩
  | cons ev evs ih =>
    have hstep : c.step postcard crc32 args .send =
        { c with thread := .sending connId evs, egress := c.egress ++ [⟨connId,ev⟩] } := by
      rw [Connection.step,Connection.send,ht]
      exact if_pos hw
    obtain ⟨c',h⟩ := ih (c := { c with thread := .sending connId evs, egress := c.egress ++ [⟨connId,ev⟩] }) rfl hw
    exact ⟨c',(Reaches.one .send rfl hstep).trans h.reaches,h.thread,h.ingress,h.writer,h.reader⟩

theorem exists_free (ht : c.thread ≠ .returned) (hw : c.writer ≠ .returned) :
    ∃ c', Frees postcard crc32 args c c.ingress c' := by
  cases hthread : c.thread with
  | selecting => exact ⟨c,.refl c,hthread,rfl,rfl,rfl⟩
  | sending connId evs => exact exists_finish postcard crc32 args hthread hw
  | returned => exact absurd hthread ht
  | received inb =>
    have hstep : c.step postcard crc32 args (.process true) = { c with
        metrics := c.metrics.queueDec
        server := (c.server.journaled postcard crc32 inb.cmd true).processed inb.cmd
        thread := .sending inb.connId (c.server.engine.process inb.cmd).2 } := by
      rw [Connection.step,Connection.process,hthread]
    obtain ⟨c',h⟩ := exists_finish postcard crc32 args (c := { c with
        metrics := c.metrics.queueDec
        server := (c.server.journaled postcard crc32 inb.cmd true).processed inb.cmd
        thread := .sending inb.connId (c.server.engine.process inb.cmd).2 }) rfl hw
    exact ⟨c',(Reaches.one (.process true) rfl hstep).trans h.reaches,h.thread,h.ingress,h.writer,h.reader⟩

/-- The queue becomes empty. -/
theorem exists_empty (ht : c.thread ≠ .returned) (hw : c.writer ≠ .returned) :
    ∃ c', Frees postcard crc32 args c [] c' := by
  generalize hq : c.ingress = q
  induction q generalizing c with
  | nil =>
    obtain ⟨c',h⟩ := exists_free postcard crc32 args ht hw
    exact ⟨c',h.reaches,h.thread,h.ingress.trans hq,h.writer,h.reader⟩
  | cons inb rest ih =>
    obtain ⟨c₁,h₁⟩ := exists_free postcard crc32 args ht hw
    have hstep : c₁.step postcard crc32 args .receive = { c₁ with thread := .received inb, ingress := rest } := by
      rw [Connection.step,Connection.receive,h₁.thread,h₁.ingress,hq]
    obtain ⟨c',h⟩ := ih (c := { c₁ with thread := .received inb, ingress := rest }) (by simp)
      (by rw [h₁.writer]; exact hw) rfl
    exact ⟨c',h₁.reaches.trans ((Reaches.one .receive rfl hstep).trans h.reaches),h.thread,h.ingress,
      h.writer.trans h₁.writer,h.reader.trans h₁.reader⟩

/-! ### The write loop -/

/-- All events are written and flushed. -/
structure Flushed (postcard : ServerPostcard) (crc32 : List UInt8 → UInt32) (args : Args) (c c' : Connection S) : Prop where
  reaches : Reaches postcard crc32 args c c'
  egress : c'.egress = []
  flushed : c'.flushed = c'.fed.length
  writer : c'.writer = .selecting
  thread : c'.thread = c.thread
  ingress : c'.ingress = c.ingress
  reader : c'.reader = c.reader

theorem exists_drained (hw : c.writer = .draining)
    (hfits : ∀ out ∈ c.egress, (postcard.toGateway.encode (.clientEvent out.connId out.ev none)).length ≤ args.maxFrame) :
    ∃ c', Flushed postcard crc32 args c c' := by
  generalize hq : c.egress = q
  induction q generalizing c with
  | nil =>
    have hstep : c.step postcard crc32 args .flush = { c with flushed := c.fed.length, writer := .selecting } := by
      rw [Connection.step,Connection.flush,if_pos ⟨hw,hq⟩]
    exact ⟨_,.one .flush rfl hstep,hq,rfl,rfl,rfl,rfl,rfl⟩
  | cons out rest ih =>
    have hfit := hfits out (by rw [hq]; exact List.mem_cons_self ..)
    have hstep : c.step postcard crc32 args .feed = { c with
        egress := rest
        fed := c.fed ++ [postcard.toGateway.encode (.clientEvent out.connId out.ev none)]
        metrics := c.metrics.incFramesOut } := by
      rw [Connection.step,Connection.feed,hw,hq]
      exact if_pos hfit
    obtain ⟨c',h⟩ := ih (c := { c with
        egress := rest
        fed := c.fed ++ [postcard.toGateway.encode (.clientEvent out.connId out.ev none)]
        metrics := c.metrics.incFramesOut }) hw (fun x hx => hfits x (by rw [hq]; exact List.mem_cons_of_mem _ hx)) rfl
    exact ⟨c',(Reaches.one .feed rfl hstep).trans h.reaches,h.egress,h.flushed,h.writer,h.thread,h.ingress,h.reader⟩

theorem exists_flushed (hw : c.writer ≠ .returned)
    (hfits : ∀ out ∈ c.egress, (postcard.toGateway.encode (.clientEvent out.connId out.ev none)).length ≤ args.maxFrame) :
    ∃ c', Flushed postcard crc32 args c c' := by
  cases hwriter : c.writer with
  | draining => exact exists_drained postcard crc32 args hwriter hfits
  | returned => exact absurd hwriter hw
  | selecting =>
    have hstep : c.step postcard crc32 args .tick = { c with writer := .draining } := by
      rw [Connection.step,Connection.tick,if_pos hwriter]
    obtain ⟨c',h⟩ := exists_drained postcard crc32 args (c := { c with writer := .draining }) rfl hfits
    exact ⟨c',(Reaches.one .tick rfl hstep).trans h.reaches,h.egress,h.flushed,h.writer,h.thread,h.ingress,h.reader⟩

/-! ### Runs -/

omit [Slab S Order] in
theorem Ledger.accepted_own (c : Connection S) (l : Ledger) {a : Action} (ha : a.own = true) :
    (l.step postcard args c a).accepted = l.accepted := by
  cases a with
  | process elapsed =>
    simp only [Ledger.step,Ledger.process]
    split <;> rfl
  | frame bytes => cases ha
  | answer => cases ha
  | _ => rfl

theorem execute_own (s : Connection S × Ledger) {as : List Action} (has : ∀ a ∈ as, a.own = true) :
    (execute postcard crc32 args s as).1 = as.foldl (Connection.step postcard crc32 args) s.1 ∧
      (execute postcard crc32 args s as).2.accepted = s.2.accepted := by
  induction as generalizing s with
  | nil => exact ⟨rfl,rfl⟩
  | cons a as ih =>
    obtain ⟨hstate,haccepted⟩ := ih (_,_) fun b hb => has b (List.mem_cons_of_mem _ hb)
    exact ⟨hstate,haccepted.trans (Ledger.accepted_own postcard args s.1 s.2 (has a (List.mem_cons_self ..)))⟩

theorem outputs_front (e : Engine S) {done cmds : List Inbound} (h : done <+: cmds) :
    outputs e done <+: outputs e cmds := by
  obtain ⟨rest,rfl⟩ := h
  induction done generalizing e with
  | nil => exact List.nil_prefix
  | cons inb done ih => exact (List.prefix_append_right_inj _).mpr (ih _)

/-- The events of the commands fit in the frames for the gateway. -/
def Fits (postcard : ServerPostcard) (args : Args) (e : Engine S) (cmds : List Inbound) : Prop :=
  ∀ out ∈ outputs e cmds, (postcard.toGateway.encode (.clientEvent out.connId out.ev none)).length ≤ args.maxFrame

instance (e : Engine S) (cmds : List Inbound) : Decidable (Fits postcard args e cmds) :=
  inferInstanceAs (Decidable (∀ out ∈ outputs e cmds,_))

/-- Where a server is that has nothing left to do for the commands in its queue. -/
structure Drained (postcard : ServerPostcard) (sv : Server S) (cmds : List Inbound) (s : Connection S × Ledger) : Prop where
  waiting : s.1.waiting = []
  accepted : s.2.accepted = cmds
  processed : s.2.processed = cmds
  delivered : s.1.delivered postcard = outputs sv.engine cmds
  flushed : s.1.flushed = s.1.fed.length

variable {sv : Server S} {s : Connection S × Ledger}

theorem Sound.run (h : Sound postcard args sv s.1 s.2) (as : List Action) :
    Sound postcard args sv (execute postcard crc32 args s as).1 (execute postcard crc32 args s as).2 :=
  execute_keeps (P := Sound postcard args sv) Sound.step h as

/-- What waits for the write loop fits in its frames. -/
theorem Sound.egress_fits (h : Sound postcard args sv s.1 s.2) (hfits : Fits postcard args sv.engine s.2.accepted)
    (hwriter : s.1.writer ≠ .returned) :
    ∀ out ∈ s.1.egress, (postcard.toGateway.encode (.clientEvent out.connId out.ev none)).length ≤ args.maxFrame := by
  intro out hout
  have hprocessed : s.2.processed <+: s.2.accepted := by
    rw [h.intake.accepted]
    exact List.prefix_append ..
  apply hfits out ((outputs_front sv.engine hprocessed).subset _)
  rw [← h.output.intact hwriter]
  exact List.mem_append_right _ (List.mem_append_left _ hout)

theorem Sound.drained (h : Sound postcard args sv s.1 s.2) (hthread : s.1.thread = .selecting)
    (hwriter : s.1.writer = .selecting) (hingress : s.1.ingress = []) (hegress : s.1.egress = []) :
    Drained postcard sv s.2.accepted s := by
  have hwaiting : s.1.waiting = [] := by rw [Connection.waiting,hthread,hingress]; rfl
  have hprocessed : s.2.processed = s.2.accepted := by rw [h.intake.accepted,hwaiting,List.append_nil]
  refine ⟨hwaiting,rfl,hprocessed,?_,h.output.calm hwriter⟩
  have hintact := h.output.intact (by rw [hwriter]; simp)
  rw [hegress,hthread,hprocessed] at hintact
  exact (List.append_nil _).symm.trans hintact

/-- First the engine thread empties the queue, then the write loop its channel. -/
theorem Sound.exists_run_drained (h : Sound postcard args sv s.1 s.2) (hfits : Fits postcard args sv.engine s.2.accepted)
    (hthread : s.1.thread ≠ .returned) (hwriter : s.1.writer ≠ .returned) : ∃ bs : List Action,
      (∀ b ∈ bs, b.own = true) ∧ Drained postcard sv s.2.accepted (execute postcard crc32 args s bs) := by
  obtain ⟨c₁,h₁⟩ := exists_empty postcard crc32 args hthread hwriter
  obtain ⟨as₁,hown₁,hstate₁⟩ := h₁.reaches
  obtain ⟨hrun₁,hacc₁⟩ := execute_own postcard crc32 args s hown₁
  have hs₁ := h.run postcard crc32 args as₁
  have hc₁ := hrun₁.trans hstate₁
  rw [← hc₁] at h₁
  have hwriter₁ : (execute postcard crc32 args s as₁).1.writer ≠ .returned := by rw [h₁.writer]; exact hwriter
  rw [← hacc₁] at hfits
  obtain ⟨c₂,h₂⟩ := exists_flushed postcard crc32 args hwriter₁ (hs₁.egress_fits postcard args hfits hwriter₁)
  obtain ⟨as₂,hown₂,hstate₂⟩ := h₂.reaches
  obtain ⟨hrun₂,hacc₂⟩ := execute_own postcard crc32 args (execute postcard crc32 args s as₁) hown₂
  have hs₂ := hs₁.run postcard crc32 args as₂
  have hc₂ := hrun₂.trans hstate₂
  rw [← hc₂] at h₂
  refine ⟨as₁ ++ as₂,fun b hb => (List.mem_append.mp hb).elim (hown₁ b) (hown₂ b),?_⟩
  rw [execute,Machine.after_append,← hacc₁,← hacc₂]
  exact hs₂.drained postcard args (h₂.thread.trans h₁.thread) h₂.writer (h₂.ingress.trans h₁.ingress) h₂.egress

/-- Whatever has happened, as long as neither the engine thread nor the write loop has ended, steps of theirs alone
lead to a server that has carried out every command its queue has taken and has sent all of their events, provided
that each of these fits in a frame. -/
theorem drains (sv : Server S) (as : List Action)
    (hfits : Fits postcard args sv.engine (execute postcard crc32 args (.accept sv,.empty) as).2.accepted)
    (hthread : (execute postcard crc32 args (.accept sv,.empty) as).1.thread ≠ .returned)
    (hwriter : (execute postcard crc32 args (.accept sv,.empty) as).1.writer ≠ .returned) :
    ∃ bs : List Action, (∀ b ∈ bs, b.own = true) ∧
      Drained postcard sv (execute postcard crc32 args (.accept sv,.empty) as).2.accepted
        (execute postcard crc32 args (.accept sv,.empty) (as ++ bs)) := by
  obtain ⟨bs,hown,h⟩ :=
    (execute_sound postcard crc32 args sv as).exists_run_drained postcard crc32 args hfits hthread hwriter
  have happend : execute postcard crc32 args (.accept sv,.empty) (as ++ bs) = _ :=
    (machine postcard crc32 args).after_append (.accept sv,.empty) as bs
  refine ⟨bs,hown,?_⟩
  rw [happend]
  exact h

def twoOrders : List Inbound :=
  [⟨1,.newOrder ⟨1,7,1,1,.buy,100,5,.gtc,⟨false⟩⟩⟩,⟨1,.newOrder ⟨2,8,1,1,.sell,100,3,.gtc,⟨false⟩⟩⟩]

/-- The engine thread has received the first order, and the second is in the queue. -/
def twoWaiting : List Action :=
  [.frame (GatewayToEngine.wire.codec.encode (.execute ⟨twoOrders[0].cmd,1,⟨1,0,0⟩⟩)),.count,.receive,
    .frame (GatewayToEngine.wire.codec.encode (.execute ⟨twoOrders[1].cmd,1,⟨1,0,0⟩⟩))]

theorem twoWaiting_drains : ∃ bs : List Action, (∀ b ∈ bs, b.own = true) ∧ Drained .standard freshServer twoOrders
    (execute .standard Crc32.hash ⟨103,1,Nat.one_pos⟩ (.accept freshServer,.empty) (twoWaiting ++ bs)) := by
  have haccepted : (execute .standard Crc32.hash ⟨103,1,Nat.one_pos⟩ (.accept freshServer,.empty)
      twoWaiting).2.accepted = twoOrders := by decide +kernel
  rw [← haccepted]
  exact drains .standard Crc32.hash ⟨103,1,Nat.one_pos⟩ freshServer twoWaiting (by rw [haccepted]; decide +kernel)
    (by decide +kernel) (by decide +kernel)

end EngineServer
end HighPerfTrading
