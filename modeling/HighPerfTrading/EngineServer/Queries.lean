import HighPerfTrading.EngineServer.Delivery

/-! What the engine server answers to the gateway's queries, whatever the order in which its three tasks run. -/
namespace HighPerfTrading
namespace EngineServer
variable {S : Type} [Slab S Order]

/-- The orders that are live when the first `n` commands are processed. -/
def ordersAfter (e : Engine S) (cmds : List Inbound) (n : ℕ) : List OrderSnapshot :=
  (e.liveRun ((cmds.take n).map Inbound.cmd)).book.getAllOrderSnapshots

def Connection.reported (c : Connection S) (postcard : ServerPostcard) : List (List OrderSnapshot) :=
  (messages postcard c.fed).filterMap reportedOrders

def Reader.owed : Reader → List (List OrderSnapshot)
  | .answered orders => [orders]
  | _ => []

/-- The way of the answers. -/
structure Answers (postcard : ServerPostcard) (sv : Server S) (c : Connection S) (l : Ledger) : Prop where
  bounds : ∀ r ∈ l.replies, r.processed ≤ r.shown ∧ r.shown ≤ r.accepted ∧ r.shown ≤ l.processed.length ∧
    r.accepted ≤ l.accepted.length
  asked : c.reader = .asked → l.asked.1 ≤ l.processed.length ∧ l.asked.2 = l.accepted.length
  inOrder : c.reported postcard <+: l.replies.map fun r => ordersAfter sv.engine l.processed r.shown
  intact : c.writer ≠ .returned → c.reported postcard ++ (c.responses.filterMap reportedOrders ++ c.reader.owed) =
    l.replies.map fun r => ordersAfter sv.engine l.processed r.shown

namespace Answers
variable {postcard : ServerPostcard} {crc32 : List UInt8 → UInt32} {args : Args} {sv : Server S} {c c' : Connection S}
  {l l' : Ledger}

theorem step (h : Answers postcard sv c l) (hsound : Sound postcard args sv c l)
    (hs : Stepped postcard crc32 args c l c' l') : Answers postcard sv c' l' := by
  obtain ⟨hbounds,hasked,horder,hintact⟩ := h
  have hle : l.processed.length ≤ l.accepted.length := by
    rw [hsound.intake.accepted,List.length_append]
    exact Nat.le_add_right ..
  cases hs with
  | idle => exact ⟨hbounds,hasked,horder,hintact⟩
  | ended hr =>
    rw [hr] at hintact
    exact ⟨hbounds,fun hr' => by (cases hr'),horder,hintact⟩
  | skipped hr => exact ⟨hbounds,hasked,horder,hintact⟩
  | unheard hr => exact ⟨hbounds,fun hr' => absurd (hr.symm.trans hr') (by simp),horder,hintact⟩
  | dropped inb hr hfull => exact ⟨hbounds,hasked,horder,hintact⟩
  | accepted inb hr hlt =>
    rw [hr] at hintact
    refine ⟨fun r hmem => ?_,fun hr' => by (cases hr'),horder,hintact⟩
    obtain ⟨h1,h2,h3,h4⟩ := hbounds r hmem
    exact ⟨h1,h2,h3,h4.trans (by simp)⟩
  | asked hr =>
    rw [hr] at hintact
    exact ⟨hbounds,fun _ => ⟨Nat.le_refl _,rfl⟩,horder,hintact⟩
  | counted hr =>
    rw [hr] at hintact
    exact ⟨hbounds,fun hr' => by (cases hr'),horder,hintact⟩
  | relayed orders hr hw =>
    rw [hr] at hintact
    refine ⟨hbounds,fun hr' => by (cases hr'),horder,fun hw' => ?_⟩
    rw [← hintact hw',List.filterMap_append,List.append_assoc]
    rfl
  | unrelayed orders hr hw =>
    exact ⟨hbounds,fun hr' => by (cases hr'),horder,fun hw' => absurd hw hw'⟩
  | unanswered hr ht =>
    rw [hr] at hintact
    exact ⟨hbounds,fun hr' => by (cases hr'),horder,hintact⟩
  | received inb rest ht hq => exact ⟨hbounds,hasked,horder,hintact⟩
  | processed inb elapsed ht =>
    have hsame : (l.replies.map fun r => ordersAfter sv.engine (l.processed ++ [inb]) r.shown) =
        l.replies.map fun r => ordersAfter sv.engine l.processed r.shown := by
      refine List.map_congr_left fun r hmem => ?_
      rw [ordersAfter,List.take_append_of_le_length (hbounds r hmem).2.2.1]
      rfl
    refine ⟨fun r hmem => ?_,fun hr => ?_,by rw [hsame]; exact horder,by rw [hsame]; exact hintact⟩
    · obtain ⟨h1,h2,h3,h4⟩ := hbounds r hmem
      exact ⟨h1,h2,h3.trans (by simp),h4⟩
    · obtain ⟨h1,h2⟩ := hasked hr
      exact ⟨h1.trans (by simp),h2⟩
  | sent connId ev evs ht hw => exact ⟨hbounds,hasked,horder,hintact⟩
  | cut connId ev evs ht hw => exact ⟨hbounds,hasked,horder,hintact⟩
  | finished connId timestamp ht => exact ⟨hbounds,hasked,horder,hintact⟩
  | closed ht hq hr => exact ⟨hbounds,hasked,horder,hintact⟩
  | answered ht hr =>
    obtain ⟨hfrom,hto⟩ := hasked hr
    have hnow : ordersAfter sv.engine l.processed l.processed.length = c.server.engine.book.getAllOrderSnapshots := by
      rw [ordersAfter,List.take_length,← hsound.output.engine]
    have hmore : ((l.replies ++ [(⟨l.asked.1,l.asked.2,l.processed.length⟩ : Reply)]).map fun r =>
        ordersAfter sv.engine l.processed r.shown) = (l.replies.map fun r => ordersAfter sv.engine l.processed r.shown) ++
          [c.server.engine.book.getAllOrderSnapshots] := by
      rw [List.map_append,List.map_singleton,hnow]
    rw [hr] at hintact
    refine ⟨fun r hmem => ?_,fun hr' => by (cases hr'),?_,fun hw => ?_⟩
    · rcases List.mem_append.mp hmem with hmem | hmem
      · exact hbounds r hmem
      · rw [List.mem_singleton.mp hmem]
        exact ⟨hfrom,hto ▸ hle,Nat.le_refl _,hto.le⟩
    · rw [hmore]
      exact horder.trans (List.prefix_append ..)
    · rw [hmore,← hintact hw,List.append_assoc,List.append_assoc]
      rfl
  | ticked hw => exact ⟨hbounds,hasked,horder,fun _ => hintact (by simp [hw])⟩
  | fed out rest hw he =>
    have hsame : (messages postcard (c.fed ++ [postcard.toGateway.encode (.clientEvent out.connId out.ev none)])).filterMap
        reportedOrders = c.reported postcard := by
      rw [messages_put,List.filterMap_append]
      exact List.append_nil _
    refine ⟨hbounds,hasked,?_,fun hw' => ?_⟩
    · rw [Connection.reported,hsame]
      exact horder
    · rw [Connection.reported,hsame]
      exact hintact hw'
  | flushed hw he => exact ⟨hbounds,hasked,horder,fun _ => hintact (by simp [hw])⟩
  | responded m rest hw hm =>
    have hmore : (messages postcard (c.fed ++ [postcard.toGateway.encode m])).filterMap reportedOrders =
        c.reported postcard ++ (reportedOrders m).toList := by
      rw [messages_put,List.filterMap_append,Connection.reported]
      cases hx : reportedOrders m <;> simp [hx]
    have hintact := hintact (by simp [hw])
    have hall : (c.reported postcard ++ (reportedOrders m).toList) ++ (rest.filterMap reportedOrders ++ c.reader.owed) =
        l.replies.map fun r => ordersAfter sv.engine l.processed r.shown := by
      rw [← hintact,hm,List.filterMap_cons]
      cases reportedOrders m <;> simp
    refine ⟨hbounds,hasked,?_,fun _ => ?_⟩
    · rw [Connection.reported,hmore,← hall]
      exact List.prefix_append ..
    · rw [Connection.reported,hmore]
      exact hall
  | stopped => exact ⟨hbounds,hasked,horder,fun hw => absurd rfl hw⟩

theorem start (postcard : ServerPostcard) (sv : Server S) : Answers postcard sv (Connection.accept sv) Ledger.empty :=
  ⟨by simp [Ledger.empty],fun hr => by (cases hr),List.prefix_rfl,fun _ => rfl⟩

theorem shown (h : Answers postcard sv c l) (hsound : Sound postcard args sv c l) :
    c.reported postcard <+: (l.replies.map fun r => ordersAfter sv.engine l.accepted r.shown) := by
  have hsame : (l.replies.map fun r => ordersAfter sv.engine l.accepted r.shown) =
      l.replies.map fun r => ordersAfter sv.engine l.processed r.shown := by
    refine List.map_congr_left fun r hr => ?_
    rw [ordersAfter,hsound.intake.accepted,List.take_append_of_le_length (h.bounds r hr).2.2.1]
    rfl
  rw [hsame]
  exact h.inOrder

end Answers

/-- An answer to a query shows the orders after some of the commands that the queue had taken when the query was
read, and at least after those that the engine had then processed. The answers come in the order of the queries. -/
theorem answer_between (postcard : ServerPostcard) (crc32 : List UInt8 → UInt32) (args : Args) (sv : Server S)
    (as : List Action) :
    let s := execute postcard crc32 args (.accept sv,.empty) as
    s.1.reported postcard <+: (s.2.replies.map fun r => ordersAfter sv.engine s.2.accepted r.shown) ∧
      ∀ r ∈ s.2.replies, r.processed ≤ r.shown ∧ r.shown ≤ r.accepted ∧ r.accepted ≤ s.2.accepted.length := by
  obtain ⟨hsound,hanswers⟩ := execute_keeps (P := fun c l => Sound postcard args sv c l ∧ Answers postcard sv c l)
    (fun h hs => ⟨h.1.step hs,h.2.step h.1 hs⟩) (s := (.accept sv,.empty)) ⟨.start postcard args sv,.start postcard sv⟩ as
  refine ⟨hanswers.shown hsound,fun r hr => ?_⟩
  obtain ⟨h1,h2,-,h4⟩ := hanswers.bounds r hr
  exact ⟨h1,h2,h4⟩

end EngineServer
end HighPerfTrading
