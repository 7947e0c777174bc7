import HighPerfTrading.EngineServer.Silence
import HighPerfTrading.System.Startup
import Mathlib.Data.List.Perm.Subperm

/-! What the gateway server hears when it starts: once it has as many messages as engines, they are one answer of
each engine. -/
namespace HighPerfTrading
open Gateway

/-! ### The reservations -/

namespace Gateway.Reconciliation

/-- The totals do not depend on the order of the snapshots. -/
theorem reservationsByAccount_perm {orders orders' : List OrderSnapshot} (h : orders.Perm orders') :
    reservationsByAccount orders = reservationsByAccount orders' := by
  refine h.foldl_eq' (fun o _ o' _ total => OrdMap.ext fun a => ?_) ∅
  simp only [OrdMap.get_insert]
  by_cases ho : o.accountId = a
  · by_cases ho' : o'.accountId = a
    · simp only [ho,ho',if_true,Option.getD_some]
      rw [add_right_comm]
    · simp only [ho,ho',Ne.symm ho',if_true,if_false]
  · by_cases ho' : o'.accountId = a
    · simp only [ho,ho',Ne.symm ho,if_true,if_false]
    · simp only [ho,ho',if_false]

theorem rebuildReservations_perm (m : AccountManager) {orders orders' : List OrderSnapshot} (h : orders.Perm orders') :
    rebuildReservations m orders = rebuildReservations m orders' := by
  rw [rebuildReservations,reservationsByAccount_perm h,rebuildReservations]

end Gateway.Reconciliation

/-! ### One link -/

namespace EngineServer
variable {S : Type} [Slab S Order] {postcard : ServerPostcard} {crc32 : List UInt8 → UInt32} {args : Args}

def Server.reply (sv : Server S) : EngineToGateway := .allOrders sv.engine.book.getAllOrderSnapshots

/-- The answer that a query is waiting for, or that has come for it. -/
def Reader.open : Reader → ℕ
  | .asked => 1
  | .answered _ => 1
  | _ => 0

/-- A connection over which nothing but queries has come, at most `n` of them. -/
structure Asked (postcard : ServerPostcard) (args : Args) (sv : Server S) (n : ℕ) (c : Connection S) : Prop where
  engine : c.server.engine = sv.engine
  thread : c.thread = .selecting ∨ c.thread = .returned
  ingress : c.ingress = []
  egress : c.egress = []
  idle : c.reader ≠ .counting
  answered : ∀ orders, c.reader = .answered orders → .allOrders orders = Server.reply sv
  responses : ∀ m ∈ c.responses, m = Server.reply sv
  fed : ∀ frame ∈ c.fed, frame = postcard.toGateway.encode (Server.reply sv) ∧ frame.length ≤ args.maxFrame
  budget : c.reader.open+c.responses.length+c.fed.length ≤ n

namespace Asked
variable {sv : Server S} {n : ℕ} {c c' : Connection S} {l l' : Ledger}

theorem accept (postcard : ServerPostcard) (args : Args) (sv : Server S) :
    Asked postcard args sv 0 (Connection.accept sv) where
  engine := rfl
  thread := .inl rfl
  ingress := rfl
  egress := rfl
  idle := by simp [Connection.accept]
  answered := by simp [Connection.accept]
  responses := by simp [Connection.accept]
  fed := by simp [Connection.accept]
  budget := Nat.le_refl _

/-- The tasks answer with the orders that the engine has had all the time. -/
theorem step (h : Asked postcard args sv n c) (hs : Stepped postcard crc32 args c l c' l')
    (hframes : l'.frames = l.frames) : Asked postcard args sv n c' := by
  obtain ⟨hengine,hthread,hingress,hegress,hidle,hanswered,hresponses,hfed,hbudget⟩ := h
  cases hs with
  | idle => exact ⟨hengine,hthread,hingress,hegress,hidle,hanswered,hresponses,hfed,hbudget⟩
  | skipped hr => exact absurd hframes (Nat.succ_ne_self _)
  | dropped inb hr hfull => exact absurd hframes (Nat.succ_ne_self _)
  | accepted inb hr hroom => exact absurd hframes (Nat.succ_ne_self _)
  | asked hr => exact absurd hframes (Nat.succ_ne_self _)
  | unheard hr => exact absurd hframes (Nat.succ_ne_self _)
  | counted hr => exact absurd hr hidle
  | ended hr =>
    rw [hr] at hbudget
    exact ⟨hengine,hthread,hingress,hegress,by simp,by simp,hresponses,hfed,hbudget⟩
  | relayed orders hr hw =>
    rw [hr] at hbudget
    refine ⟨hengine,hthread,hingress,hegress,by simp,by simp,fun m hm => ?_,hfed,?_⟩
    · rcases List.mem_append.mp hm with hm | hm
      · exact hresponses m hm
      · rw [List.mem_singleton.mp hm]
        exact hanswered orders hr
    · simp only [Reader.open,List.length_append,List.length_singleton] at hbudget ⊢
      omega
  | unrelayed orders hr hw =>
    refine ⟨hengine,hthread,hingress,hegress,by simp,by simp,hresponses,hfed,?_⟩
    simp only [Reader.open]
    omega
  | unanswered hr ht =>
    refine ⟨hengine,hthread,hingress,hegress,by simp,by simp,hresponses,hfed,?_⟩
    simp only [Reader.open]
    omega
  | received inb rest ht hq => exact absurd (hingress.symm.trans hq) (by simp)
  | processed inb elapsed ht => rcases hthread with h | h <;> exact absurd (h.symm.trans ht) (by simp)
  | sent connId ev evs ht hw => rcases hthread with h | h <;> exact absurd (h.symm.trans ht) (by simp)
  | cut connId ev evs ht hw => rcases hthread with h | h <;> exact absurd (h.symm.trans ht) (by simp)
  | finished connId timestamp ht => rcases hthread with h | h <;> exact absurd (h.symm.trans ht) (by simp)
  | closed ht hq hr => exact ⟨hengine,.inr rfl,hingress,hegress,hidle,hanswered,hresponses,hfed,hbudget⟩
  | answered ht hr =>
    rw [hr] at hbudget
    refine ⟨hengine,hthread,hingress,hegress,by simp,fun orders ho => ?_,hresponses,hfed,hbudget⟩
    cases ho
    rw [Server.reply,hengine]
  | ticked hw => exact ⟨hengine,hthread,hingress,hegress,hidle,hanswered,hresponses,hfed,hbudget⟩
  | fed out rest hw he => exact absurd (hegress.symm.trans he) (by simp)
  | flushed hw he => exact ⟨hengine,hthread,hingress,hegress,hidle,hanswered,hresponses,hfed,hbudget⟩
  | responded m rest hw hm hfit =>
    rw [hm] at hresponses hbudget
    refine ⟨hengine,hthread,hingress,hegress,hidle,hanswered,fun x hx => hresponses x (List.mem_cons_of_mem _ hx),
      fun frame hf => ?_,?_⟩
    · rcases List.mem_append.mp hf with hf | hf
      · exact hfed frame hf
      · have hm := hresponses m (List.mem_cons_self ..)
        rw [List.mem_singleton.mp hf,hm]
        exact ⟨rfl,hm ▸ hfit⟩
    · simp only [List.length_cons,List.length_append,List.length_nil] at hbudget ⊢
      omega
  | stopped =>
    refine ⟨hengine,hthread,hingress,rfl,hidle,hanswered,by simp [Connection.writerReturns],hfed,?_⟩
    simp only [Connection.writerReturns,List.length_nil]
    omega

/-- One more query comes. -/
theorem query (h : Asked postcard args sv n c) :
    Asked postcard args sv (n+1) (c.readFrame postcard args (postcard.toEngine.encode .queryAllOrders)) := by
  obtain ⟨hengine,hthread,hingress,hegress,hidle,hanswered,hresponses,hfed,hbudget⟩ := h
  unfold Connection.readFrame
  rw [postcard.toEngine.decode_encode]
  split_ifs with hr hlong
  · exact ⟨hengine,hthread,hingress,hegress,hidle,hanswered,hresponses,hfed,Nat.le_succ_of_le hbudget⟩
  · refine ⟨hengine,hthread,hingress,hegress,by simp,by simp,hresponses,hfed,?_⟩
    simp only [Reader.open]
    omega
  · rw [not_not] at hr
    rw [hr] at hbudget
    simp only [Connection.query]
    split_ifs
    · refine ⟨hengine,hthread,hingress,hegress,by simp,by simp,hresponses,hfed,?_⟩
      simp only [Reader.open] at hbudget ⊢
      omega
    · exact ⟨hengine,hthread,hingress,hegress,hidle,hanswered,hresponses,hfed,by
        simp only [hr]
        exact Nat.le_succ_of_le hbudget⟩

end Asked
theorem Stepped.fed_le {c c' : Connection S} {l l' : Ledger} (hs : Stepped postcard crc32 args c l c' l') :
    c.fed.length ≤ c'.fed.length := by
  cases hs with
  | fed out rest hw he hfit => exact List.length_append ▸ Nat.le_add_right ..
  | responded m rest hw hm hfit => exact List.length_append ▸ Nat.le_add_right ..
  | _ => exact Nat.le_refl _

end EngineServer

namespace EngineLink
open EngineServer
variable {S : Type} [Slab S Order] {postcard : ServerPostcard} {crc32 : List UInt8 → UInt32} {args : Args}

/-- A link over which the gateway has sent `q` queries and nothing else. What its reader task has read are answers
that fit. -/
structure Asked (postcard : ServerPostcard) (args : Args) (sv : Server S) (q : ℕ) (k : EngineLink S) : Prop where
  sent : ∃ b j, b+j ≤ q ∧ EngineServer.Asked postcard args sv b k.connection ∧
    k.sent = List.replicate j (postcard.toEngine.encode .queryAllOrders)
  read : k.read ≤ k.connection.fed.length
  short : 0 < k.read → (postcard.toGateway.encode (Server.reply sv)).length ≤ min args.maxFrame EngineRouter.maxFrameLength

namespace Asked
variable {sv : Server S} {q : ℕ} {k : EngineLink S}

theorem connect (postcard : ServerPostcard) (args : Args) (sv : Server S) : Asked postcard args sv 0 (.connect sv) where
  sent := ⟨0,0,Nat.le_refl _,.accept postcard args sv,rfl⟩
  read := Nat.le_refl _
  short := fun h => absurd h (Nat.lt_irrefl _)

theorem engine (h : Asked postcard args sv q k) : k.connection.server.engine = sv.engine := by
  obtain ⟨b,j,hbudget,hc,hsent⟩ := h.sent
  exact hc.engine

theorem read_le (h : Asked postcard args sv q k) : k.read ≤ q := by
  obtain ⟨b,j,hbudget,hc,hsent⟩ := h.sent
  have hfed := hc.budget
  have hread := h.read
  omega

theorem send (h : Asked postcard args sv q k) : Asked postcard args sv (q+1) (k.send postcard .queryAllOrders) := by
  obtain ⟨b,j,hbudget,hc,hsent⟩ := h.sent
  refine ⟨⟨b,j+1,Nat.succ_le_succ hbudget,hc,?_⟩,h.read,h.short⟩
  rw [List.replicate_succ',← hsent]
  rfl

theorem arrive (h : Asked postcard args sv q k) : Asked postcard args sv q (k.arrive postcard args) := by
  obtain ⟨b,j,hbudget,hc,hsent⟩ := h.sent
  unfold EngineLink.arrive
  split
  case h_1 bytes rest hr hbytes =>
    obtain ⟨j,rfl⟩ : ∃ i, j = i+1 := by
      refine Nat.exists_eq_succ_of_ne_zero ?_
      rintro rfl
      simp [hsent] at hbytes
    rw [hsent,List.replicate_succ] at hbytes
    obtain ⟨rfl,rfl⟩ := List.cons_eq_cons.mp hbytes
    have hs : Stepped postcard Crc32.hash args k.connection .empty _ _ :=
      readFrame_cases k.connection .empty (postcard.toEngine.encode .queryAllOrders)
    exact ⟨⟨b+1,j,by omega,hc.query,rfl⟩,h.read.trans hs.fed_le,h.short⟩
  case h_2 => exact h

theorem serverStep (h : Asked postcard args sv q k) (a : EngineServer.Action) :
    Asked postcard args sv q (k.serverStep postcard crc32 args a) := by
  obtain ⟨b,j,hbudget,hc,hsent⟩ := h.sent
  by_cases ha : ∃ bytes, a = .frame bytes
  · obtain ⟨bytes,rfl⟩ := ha
    exact h
  · have ha : ∀ bytes, a ≠ .frame bytes := fun bytes hb => ha ⟨bytes,hb⟩
    have hs : Stepped postcard crc32 args k.connection .empty _ _ := step_cases k.connection .empty a
    rw [serverStep_eq ha]
    exact ⟨⟨b,j,hbudget,hc.step hs (Ledger.frames_step _ _ ha),hsent⟩,h.read.trans hs.fed_le,h.short⟩

/-- What the reader task reads is the answer of the engine. -/
theorem readEvent (h : Asked postcard args sv q k) : Asked postcard args sv q (k.readEvent postcard).1 ∧
    (((k.readEvent postcard).1.read = k.read ∧ (k.readEvent postcard).2 = []) ∨
      ((k.readEvent postcard).1.read = k.read+1 ∧ (k.readEvent postcard).2 = [Server.reply sv])) := by
  obtain ⟨b,j,hbudget,hc,hsent⟩ := h.sent
  unfold EngineLink.readEvent
  split
  case h_1 bytes hreading hframe =>
    obtain ⟨rfl,hshort⟩ := hc.fed bytes (List.mem_of_getElem? hframe)
    split_ifs with hlong
    · exact ⟨⟨⟨b,j,hbudget,hc,hsent⟩,h.read,h.short⟩,.inl ⟨rfl,rfl⟩⟩
    · refine ⟨⟨⟨b,j,hbudget,hc,hsent⟩,?_,fun _ => le_min hshort (Nat.not_lt.mp hlong)⟩,.inr ⟨rfl,?_⟩⟩
      · obtain ⟨hlt,-⟩ := List.getElem?_eq_some_iff.mp hframe
        exact hlt
      · rw [postcard.toGateway.decode_encode]
        rfl
  case h_2 => exact ⟨h,.inl ⟨rfl,rfl⟩⟩

end Asked
end EngineLink

namespace Startup
variable {S : Type} [Slab S Order]

def ordersOf (servers : OrdMap SymbolId (Server S)) (s : SymbolId) : List OrderSnapshot :=
  (servers[s]?).elim [] fun sv => sv.engine.book.getAllOrderSnapshots

omit [Slab S Order] in
theorem get_start {servers : OrdMap SymbolId (Server S)} {symbolIds : List SymbolId} (s : SymbolId) :
    (start servers symbolIds).links[s]? = (servers[s]?).map .connect :=
  Std.ExtTreeMap.getElem?_map

variable (postcard : ServerPostcard) (args : SymbolId → EngineServer.Args) (servers : OrdMap SymbolId (Server S))

/-- `asked` are the engines that a query was sent to. The answers of `heard` have been collected, those of `waiting`
are in the channel. -/
structure Heard (links : OrdMap SymbolId (EngineLink S)) (channel : List EngineToGateway)
    (asked heard waiting : List SymbolId) : Prop where
  link : ∀ s k, links[s]? = some k → ∃ sv, servers[s]? = some sv ∧ k.Asked postcard (args s) sv (asked.count s) ∧
    (heard ++ waiting).count s = k.read
  unlinked : ∀ s, links[s]? = none → servers[s]? = none ∧ (heard ++ waiting).count s = 0
  channel : channel = waiting.map fun s => .allOrders (ordersOf servers s)

/-- How far the question is, with the engines that have been asked and heard. -/
def Follows (symbolIds asked heard : List SymbolId) : Query → Prop
  | .asking left => symbolIds = asked ++ left ∧ heard = []
  | .collecting received orders => asked = symbolIds ∧ heard.length = received ∧ received ≤ symbolIds.length ∧
      orders = heard.flatMap (ordersOf servers)
  | .done orders => asked = symbolIds ∧ heard.length = symbolIds.length ∧ orders = heard.flatMap (ordersOf servers)
  | .failed => True

def Traced (symbolIds : List SymbolId) (x : Startup S) : Prop :=
  x.symbolIds = symbolIds ∧ ∃ asked heard waiting, Heard postcard args servers x.links x.channel asked heard waiting ∧
    Follows servers symbolIds asked heard x.query

variable {postcard args servers} {links : OrdMap SymbolId (EngineLink S)} {channel : List EngineToGateway}
  {asked heard waiting : List SymbolId}

/-- One link changes, and what is counted for its engine. -/
theorem Heard.update (h : Heard postcard args servers links channel asked heard waiting) {s : SymbolId}
    {k j : EngineLink S} (hk : links[s]? = some k) {asked' waiting' : List SymbolId}
    (hasked : ∀ t, t ≠ s → asked'.count t = asked.count t)
    (hwaiting : ∀ t, t ≠ s → waiting'.count t = waiting.count t)
    (hnew : ∀ sv, servers[s]? = some sv → k.Asked postcard (args s) sv (asked.count s) →
      (heard ++ waiting).count s = k.read →
        j.Asked postcard (args s) sv (asked'.count s) ∧ (heard ++ waiting').count s = j.read) :
    Heard postcard args servers (links.insert s j) (waiting'.map fun s => .allOrders (ordersOf servers s)) asked' heard
      waiting' where
  link t i hi := by
    rw [OrdMap.get_insert] at hi
    split_ifs at hi with hs
    · obtain rfl := Option.some.inj hi
      subst hs
      obtain ⟨sv,hsv,hlink,hcount⟩ := h.link s k hk
      exact ⟨sv,hsv,hnew sv hsv hlink hcount⟩
    · obtain ⟨sv,hsv,hlink,hcount⟩ := h.link t i hi
      rw [List.count_append] at hcount ⊢
      rw [hasked t (Ne.symm hs),hwaiting t (Ne.symm hs)]
      exact ⟨sv,hsv,hlink,hcount⟩
  unlinked t ht := by
    rw [OrdMap.get_insert] at ht
    split_ifs at ht with hs
    obtain ⟨hsv,hcount⟩ := h.unlinked t ht
    rw [List.count_append] at hcount ⊢
    rw [hwaiting t (Ne.symm hs)]
    exact ⟨hsv,hcount⟩
  channel := rfl

theorem Heard.heard_le (h : Heard postcard args servers links channel asked heard waiting) (s : SymbolId) :
    heard.count s ≤ asked.count s := by
  have hsum : heard.count s ≤ (heard ++ waiting).count s := by
    rw [List.count_append]
    exact Nat.le_add_right ..
  cases hk : links[s]? with
  | none =>
    rw [(h.unlinked s hk).2] at hsum
    exact hsum.trans (Nat.zero_le _)
  | some k =>
    obtain ⟨sv,hsv,hlink,hcount⟩ := h.link s k hk
    exact (hcount ▸ hsum).trans hlink.read_le

namespace Traced
variable {symbolIds : List SymbolId} {x : Startup S} {crc32 : List UInt8 → UInt32}

theorem start (postcard : ServerPostcard) (args : SymbolId → EngineServer.Args)
    (servers : OrdMap SymbolId (Server S)) (symbolIds : List SymbolId) :
    Traced postcard args servers symbolIds (.start servers symbolIds) := by
  refine ⟨rfl,[],[],[],⟨fun s k hk => ?_,fun s hs => ?_,rfl⟩,rfl,rfl⟩
  · rw [get_start] at hk
    obtain ⟨sv,hsv,rfl⟩ := Option.map_eq_some_iff.mp hk
    exact ⟨sv,hsv,.connect _ _ sv,rfl⟩
  · rw [get_start] at hs
    exact ⟨Option.map_eq_none_iff.mp hs,rfl⟩

/-- A step on a link by which no message comes to the channel. -/
theorem update (h : Traced postcard args servers symbolIds x) (s : SymbolId) {f : EngineLink S → EngineLink S}
    (hf : ∀ {sv q k}, EngineLink.Asked postcard (args s) sv q k → (f k).Asked postcard (args s) sv q ∧ (f k).read = k.read) :
    Traced postcard args servers symbolIds (x.update s f) := by
  obtain ⟨hsyms,asked,heard,waiting,hheard,hquery⟩ := h
  unfold Startup.update
  cases hk : x.links[s]? with
  | none => exact ⟨hsyms,asked,heard,waiting,hheard,hquery⟩
  | some k =>
    have hnew := hheard.update (j := f k) hk (fun _ _ => rfl) (fun _ _ => rfl) fun sv _ hlink hcount =>
      ⟨(hf hlink).1,hcount.trans (hf hlink).2.symm⟩
    rw [← hheard.channel] at hnew
    exact ⟨hsyms,asked,heard,waiting,hnew,hquery⟩

theorem ask (h : Traced postcard args servers symbolIds x) : Traced postcard args servers symbolIds (x.ask postcard) := by
  obtain ⟨hsyms,asked,heard,waiting,hheard,hquery⟩ := h
  unfold Startup.ask
  split
  case h_1 hq =>
    rw [hq] at hquery
    obtain ⟨hleft,rfl⟩ := hquery
    exact ⟨hsyms,asked,[],waiting,hheard,by rw [hleft,List.append_nil],rfl,Nat.zero_le _,rfl⟩
  case h_2 s left hq =>
    rw [hq] at hquery
    obtain ⟨hleft,rfl⟩ := hquery
    cases hk : x.links[s]? with
    | none => exact ⟨hsyms,asked,[],waiting,hheard,trivial⟩
    | some k =>
      have hone : ∀ t, t ≠ s → (asked ++ [s]).count t = asked.count t := fun t ht => by
        rw [List.count_append,List.count_singleton]
        simp [Ne.symm ht]
      have hnew := hheard.update (j := k.send postcard .queryAllOrders) hk hone (fun _ _ => rfl) fun sv _ hlink hcount => by
        rw [List.count_append,List.count_singleton_self]
        exact ⟨hlink.send,hcount⟩
      rw [← hheard.channel] at hnew
      dsimp only
      split_ifs
      · exact ⟨hsyms,asked ++ [s],[],waiting,hnew,by rw [hleft,List.append_assoc]; rfl,rfl⟩
      · exact ⟨hsyms,asked,[],waiting,hheard,trivial⟩
  case h_3 => exact ⟨hsyms,asked,heard,waiting,hheard,hquery⟩

/-- The message that is collected is the answer that has waited longest. -/
theorem collect (h : Traced postcard args servers symbolIds x) : Traced postcard args servers symbolIds x.collect := by
  obtain ⟨hsyms,asked,heard,waiting,hheard,hquery⟩ := h
  unfold Startup.collect
  split
  case h_1 received orders hq =>
    rw [hq] at hquery
    obtain ⟨hasked,hlen,hle,horders⟩ := hquery
    split_ifs with hall
    · exact ⟨hsyms,asked,heard,waiting,hheard,hasked,hlen.trans (hall.trans (congrArg _ hsyms)),horders⟩
    · rw [hsyms] at hall
      have hchannel := hheard.channel
      cases waiting with
      | nil =>
        rw [hchannel,List.map_nil]
        exact ⟨hsyms,asked,heard,[],hheard,hq ▸ ⟨hasked,hlen,hle,horders⟩⟩
      | cons s waiting =>
        rw [hchannel,List.map_cons]
        have hmove : (heard ++ [s]) ++ waiting = heard ++ s::waiting := by simp
        refine ⟨hsyms,asked,heard ++ [s],waiting,⟨hmove ▸ hheard.link,hmove ▸ hheard.unlinked,rfl⟩,hasked,?_,?_,?_⟩
        · rw [List.length_append,hlen,List.length_singleton]
        · omega
        · rw [horders,List.flatMap_append,List.flatMap_singleton]
  case h_2 => exact ⟨hsyms,asked,heard,waiting,hheard,hquery⟩

theorem fail (h : Traced postcard args servers symbolIds x) : Traced postcard args servers symbolIds x.fail := by
  obtain ⟨hsyms,asked,heard,waiting,hheard,hquery⟩ := h
  unfold Startup.fail
  split
  · exact ⟨hsyms,asked,heard,waiting,hheard,hquery⟩
  · exact ⟨hsyms,asked,heard,waiting,hheard,trivial⟩

/-- What a reader task reads is the answer of its engine. -/
theorem readEvent (h : Traced postcard args servers symbolIds x) (s : SymbolId) :
    Traced postcard args servers symbolIds (x.readEvent postcard s) := by
  obtain ⟨hsyms,asked,heard,waiting,hheard,hquery⟩ := h
  unfold Startup.readEvent
  cases hk : x.links[s]? with
  | none => exact ⟨hsyms,asked,heard,waiting,hheard,hquery⟩
  | some k =>
    obtain ⟨sv,hsv,hlink,hcount⟩ := hheard.link s k hk
    obtain ⟨hafter,⟨hread,hno⟩ | ⟨hread,hone⟩⟩ := hlink.readEvent
    · have hnew := hheard.update (j := (k.readEvent postcard).1) hk (fun _ _ => rfl) (fun _ _ => rfl) fun sv' hsv' _
          hcount => by
        obtain rfl := Option.some.inj (hsv.symm.trans hsv')
        exact ⟨hafter,hcount.trans hread.symm⟩
      rw [← hheard.channel] at hnew
      simp only [hno,List.append_nil]
      exact ⟨hsyms,asked,heard,waiting,hnew,hquery⟩
    · have hother : ∀ t, t ≠ s → (waiting ++ [s]).count t = waiting.count t := fun t ht => by
        rw [List.count_append,List.count_singleton]
        simp [Ne.symm ht]
      have hnew := hheard.update (j := (k.readEvent postcard).1) hk (fun _ _ => rfl) hother fun sv' hsv' _ hcount => by
        obtain rfl := Option.some.inj (hsv.symm.trans hsv')
        refine ⟨hafter,?_⟩
        rw [← List.append_assoc,List.count_append,List.count_singleton_self,hcount,hread]
      have hmessage : [EngineServer.Server.reply sv] = [s].map fun s => .allOrders (ordersOf servers s) := by
        simp only [EngineServer.Server.reply,ordersOf,List.map_cons,List.map_nil,hsv,Option.elim_some]
      rw [List.map_append,← hheard.channel,← hmessage,← hone] at hnew
      exact ⟨hsyms,asked,heard,waiting ++ [s],hnew,hquery⟩

theorem step (h : Traced postcard args servers symbolIds x) (a : Action) :
    Traced postcard args servers symbolIds (x.step postcard crc32 args a) := by
  cases a with
  | ask => exact h.ask
  | collect => exact h.collect
  | fail => exact h.fail
  | arrive s =>
    refine h.update s fun hlink => ⟨hlink.arrive,?_⟩
    unfold EngineLink.arrive
    split <;> rfl
  | server s a =>
    refine h.update s fun hlink => ⟨hlink.serverStep a,?_⟩
    cases a <;> rfl
  | readEvent s => exact h.readEvent s

theorem execute (h : Traced postcard args servers symbolIds x) (as : List Action) :
    Traced postcard args servers symbolIds (x.execute postcard crc32 args as) :=
  Machine.after_stays (m := machine postcard crc32 args) (fun _ a hx => hx.step a) h as

end Traced
/-- Who has been heard when the question ends with success: every engine once. -/
theorem Traced.heard_perm {symbolIds : List SymbolId} {x : Startup S} (h : Traced postcard args servers symbolIds x)
    {orders : List OrderSnapshot} (hdone : x.query = .done orders) :
    ∃ heard waiting, Heard postcard args servers x.links x.channel symbolIds heard waiting ∧ heard.Perm symbolIds ∧
      orders = heard.flatMap (ordersOf servers) := by
  obtain ⟨-,asked,heard,waiting,hheard,hquery⟩ := h
  rw [hdone] at hquery
  obtain ⟨rfl,hlen,horders⟩ := hquery
  have hsub : heard.Subperm asked := List.subperm_ext_iff.mpr fun s _ => hheard.heard_le s
  exact ⟨heard,waiting,hheard,hsub.perm_of_length_le hlen.ge,horders⟩

theorem Heard.engines (h : Heard postcard args servers links channel asked heard waiting) :
    (links.map fun _ (k : EngineLink S) => k.connection.server.engine) = servers.map fun _ sv => sv.engine := by
  refine OrdMap.ext fun s => ?_
  rw [Std.ExtTreeMap.getElem?_map,Std.ExtTreeMap.getElem?_map]
  cases hk : links[s]? with
  | none => rw [(h.unlinked s hk).1]; rfl
  | some k =>
    obtain ⟨sv,hsv,hlink,-⟩ := h.link s k hk
    rw [hsv]
    exact congrArg some hlink.engine

theorem queryAllEnginesForOrders_servers (servers : OrdMap SymbolId (Server S)) :
    Exchange.queryAllEnginesForOrders (servers.map fun _ sv => sv.engine) =
      (servers.toList.map Prod.fst).flatMap (ordersOf servers) := by
  rw [Exchange.queryAllEnginesForOrders,Std.ExtTreeMap.toList_map,List.flatMap_map,List.flatMap_map]
  refine List.flatMap_congr fun e he => ?_
  rw [ordersOf,OrdMap.mem_toList.mp he]
  rfl

variable {symbolIds : List SymbolId}

/-- However the tasks of the gateway and of the engine servers go on, and however long the messages are under way: if
the gateway's question succeeds it has the orders of all engines, each engine's once, and the gateway starts with the
reservations that they make. The engines are as they were. -/
theorem startup_orders (postcard : ServerPostcard) (crc32 : List UInt8 → UInt32) (args : SymbolId → EngineServer.Args)
    (servers : OrdMap SymbolId (Server S)) (hsyms : symbolIds.Perm (servers.toList.map Prod.fst)) (as : List Action)
    {orders : List OrderSnapshot}
    (hdone : ((start servers symbolIds).execute postcard crc32 args as).query = .done orders) :
    let engines := servers.map fun _ sv => sv.engine
    orders.Perm (Exchange.queryAllEnginesForOrders engines) ∧
      (((start servers symbolIds).execute postcard crc32 args as).links.map fun _ k => k.connection.server.engine) =
        engines ∧
      ∀ m apiKeys, Reconciliation.rebuildReservations m orders =
        (Exchange.restart m apiKeys engines).gateway.accountManager := by
  intro engines
  obtain ⟨heard,waiting,hheard,hperm,horders⟩ :=
    (Traced.execute (.start postcard args servers symbolIds) as).heard_perm hdone
  have hall : orders.Perm (Exchange.queryAllEnginesForOrders engines) := by
    rw [horders,queryAllEnginesForOrders_servers]
    exact (hperm.trans hsyms).flatMap_right _
  exact ⟨hall,hheard.engines,fun m apiKeys => Reconciliation.rebuildReservations_perm m hall⟩

/-- A server whose book holds two bids of different accounts. -/
def holdsBids : Server (FreeListSlab Order) :=
  { EngineServer.holdsTwo with
    engine := { (Engine.new : Engine (FreeListSlab Order)) with
      book := (OrderBook.new 1).runOps
        [.insertResting ⟨3,7,1,.buy,90,4,.gtc,⟨false⟩⟩,.insertResting ⟨4,8,1,.buy,80,2,.gtc,⟨false⟩⟩] } }

/-- The servers of two engines, the first with two asks and the second with two bids. -/
def twoServers : OrdMap SymbolId (Server (FreeListSlab Order)) :=
  ((∅ : OrdMap SymbolId (Server (FreeListSlab Order))).insert 2 holdsBids).insert 1 EngineServer.holdsTwo

/-- An engine's answer to the query, up to the gateway's channel. -/
def answering (s : SymbolId) : List Action :=
  [.arrive s,.server s .answer,.server s .resume,.server s .respond,.readEvent s]

theorem twoServers_orders : ∃ orders : List OrderSnapshot, orders.map OrderSnapshot.orderId = [1,2,3,4] ∧
    ∀ m apiKeys, Reconciliation.rebuildReservations m orders =
      (Exchange.restart m apiKeys (twoServers.map fun _ sv => sv.engine)).gateway.accountManager :=
  ⟨ordersOf twoServers 1 ++ ordersOf twoServers 2,by decide +kernel,
    (startup_orders .standard Crc32.hash (fun _ => ⟨1024,1,Nat.one_pos⟩) twoServers
      (show [2,1].Perm (twoServers.toList.map Prod.fst) by decide +kernel)
      ([.ask,.ask] ++ answering 1 ++ [.ask] ++ answering 2 ++ [.collect,.collect,.collect])
      (by decide +kernel)).2.2⟩

/-- An engine whose orders do not fit in a frame keeps the gateway's question from succeeding. -/
theorem oversize_startup (postcard : ServerPostcard) (crc32 : List UInt8 → UInt32) (args : SymbolId → EngineServer.Args)
    (servers : OrdMap SymbolId (Server S)) {s : SymbolId} (hs : s ∈ symbolIds)
    (hlong : min (args s).maxFrame EngineRouter.maxFrameLength <
      (postcard.toGateway.encode (.allOrders (ordersOf servers s))).length) (as : List Action) :
    ∀ orders, ((start servers symbolIds).execute postcard crc32 args as).query ≠ .done orders := by
  intro orders hdone
  obtain ⟨heard,waiting,hheard,hperm,-⟩ :=
    (Traced.execute (.start postcard args servers symbolIds) as).heard_perm hdone
  have hcount : 0 < (heard ++ waiting).count s :=
    List.count_pos_iff.mpr (List.mem_append_left _ (hperm.mem_iff.mpr hs))
  cases hk : ((start servers symbolIds).execute postcard crc32 args as).links[s]? with
  | none => exact absurd (hheard.unlinked s hk).2 hcount.ne'
  | some k =>
    obtain ⟨sv,hsv,hlink,hread⟩ := hheard.link s k hk
    have hshort := hlink.short (hread ▸ hcount)
    rw [ordersOf,hsv,Option.elim_some] at hlong
    exact absurd hlong (Nat.not_lt.mpr hshort)

/-- With frames of up to 14 bytes, the gateway never learns of the two orders. -/
theorem twoServers_oversize : (ordersOf twoServers 1).length = 2 ∧
    ∀ as orders, ((start twoServers [2,1]).execute .standard Crc32.hash (fun _ => ⟨14,1,Nat.one_pos⟩) as).query ≠
      .done orders :=
  ⟨by decide +kernel,oversize_startup .standard Crc32.hash (fun _ => ⟨14,1,Nat.one_pos⟩) twoServers (s := 1) (by decide)
    (by decide +kernel)⟩

end Startup
end HighPerfTrading
