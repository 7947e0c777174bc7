import HighPerfTrading.Engine.BookSnapshot
import HighPerfTrading.EngineServer.Delivery

/-! The end of the write loop silences the engine server: the read loop goes on, but nothing is answered any more.
An answer to a query that is too long for a frame ends it. -/
namespace HighPerfTrading
namespace EngineServer
variable {S : Type}

/-- The engine thread will not take another command once the write loop has ended. -/
def EngineThread.Doomed : EngineThread → Prop
  | .sending _ evs => evs ≠ []
  | .returned => True
  | _ => False

section Silence
variable [Slab S Order] {postcard : ServerPostcard} {crc32 : List UInt8 → UInt32} {args : Args}

/-- Nothing but `fed` is written, and at most one command that asks for an answer comes after the first `n`. -/
structure Silent (fed : List (List UInt8)) (n : ℕ) (c : Connection S) (l : Ledger) : Prop where
  writer : c.writer = .returned
  fed : c.fed = fed
  asks : (asksOf l.processed).length ≤ n+1
  before : ¬ c.thread.Doomed → (asksOf l.processed).length ≤ n

namespace Silent
variable {fed : List (List UInt8)} {n : ℕ} {c c' : Connection S} {l l' : Ledger}

/-- What is processed while the thread is free, and dooms it if it asks for an answer. -/
theorem process (h : Silent fed n c l) {inb : Inbound} (ht : c.thread = .received inb) :
    (asksOf (l.processed ++ [inb])).length ≤ n+1 ∧
      ((c.server.engine.process inb.cmd).2 = [] → (asksOf (l.processed ++ [inb])).length ≤ n) := by
  have hfree : ¬ c.thread.Doomed := by
    rw [ht]
    exact id
  have hn := h.before hfree
  have hlen : (asksOf (l.processed ++ [inb])).length = (asksOf l.processed).length+inb.cmd.clientSeq.toList.length := by
    rw [asksOf_append,List.length_append]
    congr 1
    simp only [asksOf,List.filterMap_cons,List.filterMap_nil]
    cases inb.cmd.clientSeq <;> rfl
  rw [hlen]
  cases hseq : inb.cmd.clientSeq with
  | none => exact ⟨Nat.le_succ_of_le hn,fun _ => hn⟩
  | some clientSeq =>
    refine ⟨Nat.succ_le_succ hn,fun hnil => ?_⟩
    exact absurd hnil (c.server.engine.process_answer hseq).ne_nil

theorem step (h : Silent fed n c l) (hs : Stepped postcard crc32 args c l c' l') : Silent fed n c' l' := by
  have hw := h.writer
  cases hs with
  | processed inb elapsed ht =>
    obtain ⟨hasks,hfree⟩ := h.process ht
    exact ⟨hw,h.fed,hasks,fun hd => hfree (not_not.mp hd)⟩
  | sent connId ev evs ht hrun => exact absurd hw hrun
  | relayed orders hr hrun => exact absurd hw hrun
  | ticked hsel => exact absurd (hw.symm.trans hsel) (by simp)
  | fed out rest hdrain he => exact absurd (hw.symm.trans hdrain) (by simp)
  | flushed hdrain he => exact absurd (hw.symm.trans hdrain) (by simp)
  | responded m rest hsel hm => exact absurd (hw.symm.trans hsel) (by simp)
  | cut connId ev evs ht hret => exact ⟨hw,h.fed,h.asks,fun hd => absurd trivial hd⟩
  | closed ht hq hr => exact ⟨hw,h.fed,h.asks,fun hd => absurd trivial hd⟩
  | finished connId timestamp ht =>
    refine ⟨hw,h.fed,h.asks,fun _ => h.before ?_⟩
    rw [ht]
    exact fun hd => hd rfl
  | received inb rest ht hq =>
    refine ⟨hw,h.fed,h.asks,fun _ => h.before ?_⟩
    rw [ht]
    exact id
  | stopped => exact ⟨rfl,h.fed,h.asks,h.before⟩
  | idle => exact ⟨hw,h.fed,h.asks,h.before⟩
  | ended hr => exact ⟨hw,h.fed,h.asks,h.before⟩
  | skipped hr => exact ⟨hw,h.fed,h.asks,h.before⟩
  | dropped inb hr hfull => exact ⟨hw,h.fed,h.asks,h.before⟩
  | accepted inb hr hroom => exact ⟨hw,h.fed,h.asks,h.before⟩
  | asked hr => exact ⟨hw,h.fed,h.asks,h.before⟩
  | unheard hr => exact ⟨hw,h.fed,h.asks,h.before⟩
  | counted hr => exact ⟨hw,h.fed,h.asks,h.before⟩
  | unrelayed orders hr hret => exact ⟨hw,h.fed,h.asks,h.before⟩
  | unanswered hr ht => exact ⟨hw,h.fed,h.asks,h.before⟩
  | answered ht hr => exact ⟨hw,h.fed,h.asks,h.before⟩

end Silent

omit [Slab S Order] in
theorem respond_oversize {c : Connection S} {m : EngineToGateway} {rest : List EngineToGateway}
    (hw : c.writer = .selecting) (hm : c.responses = m::rest)
    (hlong : args.maxFrame < (postcard.toGateway.encode m).length) :
    c.respond postcard args = ({ c with responses := rest } : Connection S).writerReturns := by
  unfold Connection.respond
  rw [hw,hm]
  simp only [Connection.put,if_neg (Nat.not_le.mpr hlong),Connection.writerReturns,if_true]

/-- An answer that does not fit in a frame is the last thing that the write loop comes to: however the tasks go on,
the gateway gets nothing more, and of the commands that ask for an answer at most one is still processed. -/
theorem oversize_answer_silences (postcard : ServerPostcard) (crc32 : List UInt8 → UInt32) (s : Connection S × Ledger)
    {orders : List OrderSnapshot} {rest : List EngineToGateway} (hw : s.1.writer = .selecting)
    (hm : s.1.responses = .allOrders orders::rest)
    (hlong : args.maxFrame < (postcard.toGateway.encode (.allOrders orders)).length) (as : List Action) :
    let s' := execute postcard crc32 args s (.respond::as)
    s'.1.fed = s.1.fed ∧ s'.1.writer = .returned ∧
      (asksOf s'.2.processed).length ≤ (asksOf s.2.processed).length+1 := by
  have hfirst : Silent s.1.fed (asksOf s.2.processed).length (s.1.step postcard crc32 args .respond)
      (s.2.step postcard args s.1 .respond) := by
    rw [Connection.step,respond_oversize hw hm hlong]
    exact ⟨rfl,rfl,Nat.le_succ _,fun _ => Nat.le_refl _⟩
  have h : Silent s.1.fed (asksOf s.2.processed).length (execute postcard crc32 args s (.respond::as)).1
      (execute postcard crc32 args s (.respond::as)).2 :=
    execute_keeps Silent.step hfirst as
  exact ⟨h.fed,h.writer,h.asks⟩

/-- A server whose book holds two orders. -/
def holdsTwo : Server (FreeListSlab Order) :=
  { freshServer with
    engine := { (Engine.new : Engine (FreeListSlab Order)) with book := OrderBook.twoAsks } }

/-- With frames of up to 14 bytes, the first query of the gateway silences it. -/
theorem twoOrders_silence : ∃ s : Connection (FreeListSlab Order) × Ledger,
    s = execute .standard Crc32.hash ⟨14,1,Nat.one_pos⟩ (.accept holdsTwo,.empty)
      [.frame [2],.answer,.resume] ∧ s.1.reader = .next ∧
      ∀ as, let s' := execute .standard Crc32.hash ⟨14,1,Nat.one_pos⟩ s (.respond::as)
        s'.1.fed = [] ∧ s'.1.writer = .returned ∧ (asksOf s'.2.processed).length ≤ 1 :=
  ⟨_,rfl,by decide +kernel,fun as => oversize_answer_silences .standard Crc32.hash _ (by decide +kernel)
    (show _ = [EngineToGateway.allOrders holdsTwo.engine.book.getAllOrderSnapshots] by decide +kernel)
    (by decide +kernel) as⟩

end Silence
end EngineServer
end HighPerfTrading
