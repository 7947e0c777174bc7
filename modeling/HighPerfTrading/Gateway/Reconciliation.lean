import HighPerfTrading.Gateway.AccountManager

/-! Rebuilding the reservations of a restarted gateway from the orders that the engines report. -/
namespace HighPerfTrading
namespace Gateway
namespace AccountManager

def setTentativeReserved (m : AccountManager) (accountId : AccountId) (amount : Int64) : AccountManager :=
  match m.accounts[accountId]? with
  | none => m
  | some state => m.put accountId { state with tentativeReserved := amount }

theorem getTentativeReserved_set (m : AccountManager) (a b : AccountId) (amount : Int64) :
    (m.setTentativeReserved a amount).getTentativeReserved b =
      if a = b ∧ (m.accounts[a]?).isSome then amount else m.getTentativeReserved b := by
  unfold setTentativeReserved getTentativeReserved
  cases ha : m.accounts[a]? with
  | none => simp
  | some state =>
    by_cases h : a = b
    · simp [h]
    · simp [h]

theorem isSome_set (m : AccountManager) (a b : AccountId) (amount : Int64) :
    ((m.setTentativeReserved a amount).accounts[b]?).isSome = (m.accounts[b]?).isSome := by
  unfold setTentativeReserved
  cases ha : m.accounts[a]? with
  | none => rfl
  | some state =>
    by_cases h : a = b
    · simp [← h,ha]
    · simp [h]

end AccountManager

namespace Reconciliation
open Gateway.AccountManager

/-- The reserved amounts of the orders summed for every account. -/
def reservationsByAccount (orders : List OrderSnapshot) : OrdMap AccountId Int64 :=
  orders.foldl (fun total order =>
    total.insert order.accountId ((total[order.accountId]?).getD 0+order.reservedAmount)) ∅

def rebuildReservations (m : AccountManager) (orders : List OrderSnapshot) : AccountManager :=
  (reservationsByAccount orders).toList.foldl (fun m e => m.setTentativeReserved e.1 e.2) m

/-- The buying power that an account's orders reserve. -/
def reservedBy (orders : List OrderSnapshot) (a : AccountId) : Int64 :=
  (orders.map fun order => if order.accountId = a then order.reservedAmount else 0).sum

theorem getD_foldl (orders : List OrderSnapshot) (t : OrdMap AccountId Int64) (a : AccountId) :
    ((orders.foldl (fun total order =>
      total.insert order.accountId ((total[order.accountId]?).getD 0+order.reservedAmount)) t)[a]?).getD 0 =
        (t[a]?).getD 0+reservedBy orders a := by
  induction orders generalizing t with
  | nil => simp [reservedBy]
  | cons order orders ih =>
    rw [List.foldl_cons,ih,OrdMap.get_insert]
    unfold reservedBy
    rw [List.map_cons,List.sum_cons]
    split_ifs with h
    · rw [Option.getD_some,h,add_assoc]
    · rw [zero_add]

theorem getD_reservationsByAccount (orders : List OrderSnapshot) (a : AccountId) :
    ((reservationsByAccount orders)[a]?).getD 0 = reservedBy orders a := by
  rw [reservationsByAccount,getD_foldl]
  simp

theorem getTentativeReserved_foldl (es : List (AccountId × Int64)) (hes : (es.map Prod.fst).Nodup)
    (m : AccountManager) (a : AccountId) (ha : (m.accounts[a]?).isSome) :
    (es.foldl (fun m e => m.setTentativeReserved e.1 e.2) m).getTentativeReserved a =
      (es.lookup a).getD (m.getTentativeReserved a) := by
  induction es generalizing m with
  | nil => rfl
  | cons e es ih =>
    obtain ⟨hnot,hnodup⟩ := List.nodup_cons.mp hes
    rw [List.foldl_cons,ih hnodup _ (by rw [isSome_set]; exact ha),getTentativeReserved_set,List.lookup_cons]
    by_cases h : e.1 = a
    · have hnone : es.lookup a = none :=
        List.lookup_eq_none_iff.mpr fun d hd => by
          simp only [bne_iff_ne]
          exact fun heq => hnot (h.trans heq ▸ List.mem_map_of_mem hd)
      simp [h,ha,hnone]
    · have hb : (a == e.1) = false := by simpa using Ne.symm h
      simp [h,hb]

/-- On accounts that hold nothing, a rebuild sets what the reported orders reserve. -/
theorem getTentativeReserved_rebuild (m : AccountManager) (orders : List OrderSnapshot) {a : AccountId}
    (ha : (m.accounts[a]?).isSome) (hzero : m.getTentativeReserved a = 0) :
    (rebuildReservations m orders).getTentativeReserved a = reservedBy orders a := by
  rw [rebuildReservations,getTentativeReserved_foldl _ (OrdMap.keys_nodup _) m a ha,OrdMap.lookup_toList,hzero,
    getD_reservationsByAccount]

end Reconciliation
end Gateway
end HighPerfTrading
