import HighPerfTrading.Gateway.BuyingPower

/-! The accounts under calls of any clients in any order, each token consumed at most once: what an account has
reserved is what its tokens add up to, and it can pay for it. -/
namespace HighPerfTrading
namespace Gateway

/-- The accounts, and the tokens that were returned and are not consumed. -/
structure TokenLedger where
  accountManager : AccountManager
  tokens : List ReservationToken

namespace TokenLedger

inductive Call
  | createAccount (accountId : AccountId) (buyingPower : Int64)
  | checkAndReserve (cmd : Command)
  | adjustReservation (token : ReservationToken) (replace : Replace)
  | releaseReservation (token : ReservationToken)
  | applyFill (fill : Fill) (token : ReservationToken) (isBuy : Bool)

/-- A call that fails consumes no token. -/
def call (l : TokenLedger) : Call → TokenLedger × Option RiskViolation
  | .createAccount accountId buyingPower => (⟨l.accountManager.createAccount accountId buyingPower,l.tokens⟩,none)
  | .checkAndReserve cmd =>
    match l.accountManager.checkAndReserve cmd with
    | .error violation => (l,some violation)
    | .ok (token,m) => (⟨m,token::l.tokens⟩,none)
  | .adjustReservation token replace =>
    match l.accountManager.adjustReservation token replace with
    | .error violation => (l,some violation)
    | .ok (token',m) => (⟨m,token'::l.tokens.erase token⟩,none)
  | .releaseReservation token => (⟨l.accountManager.releaseReservation token,l.tokens.erase token⟩,none)
  | .applyFill fill token isBuy => (⟨l.accountManager.applyFill fill token isBuy,l.tokens.erase token⟩,none)

/-- A positive price and quantity whose product fits in 64 bits. -/
def Priced (price qty : Int64) : Prop := 0 < price ∧ 0 < qty ∧ price.toInt*qty.toInt < 2^63

/-- What is asked of the prices and quantities of a command that reserves. -/
def Reservable : Command → Prop
  | .newOrder order => order.side = .buy → Priced order.price order.qty
  | .replace replace => Priced replace.newPrice replace.newQty
  | _ => True

/-- A fill of a buy costs no more than its token holds, and what a sell brings in fits in 64 bits. -/
def Settles (l : TokenLedger) (fill : Fill) (token : ReservationToken) (isBuy : Bool) : Prop :=
  0 < fill.price ∧ 0 < fill.qty ∧
    if isBuy then fill.price.toInt*fill.qty.toInt ≤ token.amount.toInt
    else fill.price.toInt*fill.qty.toInt < 2^63 ∧ ∀ s, l.accountManager.accounts[token.accountId]? = some s →
      s.buyingPower.toInt+fill.price.toInt*fill.qty.toInt < 2^63

/-- Accounts are created once, and tokens are used while they are there. -/
def Allows (l : TokenLedger) : Call → Prop
  | .createAccount accountId buyingPower => l.accountManager.accounts[accountId]? = none ∧ 0 ≤ buyingPower
  | .checkAndReserve cmd => Reservable cmd
  | .adjustReservation token replace =>
    token ∈ l.tokens ∧ token.accountId = replace.accountId ∧ Priced replace.newPrice replace.newQty
  | .releaseReservation token => token ∈ l.tokens
  | .applyFill fill token isBuy => token ∈ l.tokens ∧ l.Settles fill token isBuy

inductive Run : TokenLedger → Prop
  | start : Run ⟨AccountManager.new,[]⟩
  | step {l : TokenLedger} (h : Run l) (c : Call) (ha : l.Allows c) : Run (l.call c).1

/-- What a token holds of an account. -/
def amountFor (a : AccountId) (token : ReservationToken) : ℤ := if token.accountId = a then token.amount.toInt else 0

/-- What the tokens of an account add up to. -/
def outstanding (tokens : List ReservationToken) (a : AccountId) : ℤ := (tokens.map (amountFor a)).sum

structure Sound (l : TokenLedger) : Prop where
  nonneg : ∀ token ∈ l.tokens, 0 ≤ token.amount.toInt
  balanced : ∀ a : AccountId,
    outstanding l.tokens a = (l.accountManager.accounts[a]?).elim 0 fun s => s.tentativeReserved.toInt
  solvent : ∀ (a : AccountId) s, l.accountManager.accounts[a]? = some s → s.tentativeReserved.toInt ≤ s.buyingPower.toInt

variable {l : TokenLedger} {token : ReservationToken}

theorem outstanding_cons (token : ReservationToken) (tokens : List ReservationToken) (a : AccountId) :
    outstanding (token::tokens) a = amountFor a token+outstanding tokens a := by
  rw [outstanding,List.map_cons,List.sum_cons,outstanding]

theorem outstanding_erase {tokens : List ReservationToken} (h : token ∈ tokens) (a : AccountId) :
    outstanding (tokens.erase token) a = outstanding tokens a-amountFor a token := by
  have hsum := List.sum_map_erase (amountFor a) h
  rw [outstanding,outstanding]
  omega

namespace Sound

theorem amountFor_nonneg (h : Sound l) (ht : token ∈ l.tokens) (a : AccountId) : 0 ≤ amountFor a token := by
  unfold amountFor
  split_ifs
  · exact h.nonneg token ht
  · exact le_refl 0

theorem outstanding_nonneg (h : Sound l) (a : AccountId) : 0 ≤ outstanding l.tokens a := by
  refine List.sum_nonneg fun x hx => ?_
  obtain ⟨token,ht,rfl⟩ := List.mem_map.mp hx
  exact h.amountFor_nonneg ht a

/-- One token is part of the sum. -/
theorem amount_le (h : Sound l) (ht : token ∈ l.tokens) : token.amount.toInt ≤ outstanding l.tokens token.accountId := by
  have hsum := List.sum_map_erase (amountFor token.accountId) ht
  have hrest : 0 ≤ ((l.tokens.erase token).map (amountFor token.accountId)).sum := by
    refine List.sum_nonneg fun x hx => ?_
    obtain ⟨other,hother,rfl⟩ := List.mem_map.mp hx
    exact h.amountFor_nonneg (List.mem_of_mem_erase hother) _
  have hown : amountFor token.accountId token = token.amount.toInt := if_pos rfl
  rw [outstanding]
  omega

section Account
variable {s : AccountState} {a : AccountId}

theorem reserved_eq (h : Sound l) (hs : l.accountManager.accounts[a]? = some s) :
    s.tentativeReserved.toInt = outstanding l.tokens a := by
  rw [h.balanced,hs,Option.elim_some]

theorem reserved_nonneg (h : Sound l) (hs : l.accountManager.accounts[a]? = some s) :
    0 ≤ s.tentativeReserved.toInt := by
  rw [h.reserved_eq hs]
  exact h.outstanding_nonneg a

/-- One account and its tokens change by the same amount. -/
theorem change (h : Sound l) (hs : l.accountManager.accounts[a]? = some s) {s' : AccountState}
    {tokens : List ReservationToken} (hnn : ∀ token ∈ tokens, 0 ≤ token.amount.toInt)
    (hsum : ∀ b, outstanding tokens b = outstanding l.tokens b +
      if a = b then s'.tentativeReserved.toInt-s.tentativeReserved.toInt else 0)
    (hle : s'.tentativeReserved.toInt ≤ s'.buyingPower.toInt) :
    Sound ⟨l.accountManager.put a s',tokens⟩ := by
  refine ⟨hnn,fun b => ?_,fun b t ht => ?_⟩
  · rw [hsum,h.balanced,AccountManager.accounts_put]
    split_ifs with hab
    · rw [← hab,hs,Option.elim_some,Option.elim_some]
      omega
    · exact add_zero _
  · rw [AccountManager.accounts_put] at ht
    split_ifs at ht
    · rw [← Option.some.inj ht]
      exact hle
    · exact h.solvent b t ht

end Account

/-! ### One call -/

theorem createAccount (h : Sound l) {a : AccountId} {buyingPower : Int64}
    (hnone : l.accountManager.accounts[a]? = none) (h0 : 0 ≤ buyingPower) :
    Sound ⟨l.accountManager.createAccount a buyingPower,l.tokens⟩ := by
  have h0' := Int64.le_iff_toInt_le.mp h0
  rw [Int64.toInt_zero] at h0'
  refine ⟨h.nonneg,fun b => ?_,fun b s hs => ?_⟩
  · rw [h.balanced,AccountManager.createAccount,OrdMap.get_insert]
    split_ifs with hab
    · rw [← hab,hnone]
      rfl
    · rfl
  · simp only [AccountManager.createAccount,OrdMap.get_insert] at hs
    split_ifs at hs
    · rw [← Option.some.inj hs]
      exact h0'
    · exact h.solvent b s hs

/-- A new token of `amount` that the available funds cover. -/
theorem reserve (h : Sound l) (token : ReservationToken) {s : AccountState}
    (hs : l.accountManager.accounts[token.accountId]? = some s)
    (h0 : 0 ≤ token.amount.toInt) (hafford : token.amount ≤ s.buyingPower-s.tentativeReserved) :
    Sound ⟨l.accountManager.put token.accountId { s with tentativeReserved := s.tentativeReserved+token.amount },
      token::l.tokens⟩ := by
  have hres := h.reserved_nonneg hs
  have hsolvent := h.solvent _ s hs
  have hbp := Int64.toInt_lt s.buyingPower
  have hafford' := Int64.le_iff_toInt_le.mp hafford
  rw [Int64.toInt_sub_of_range (by omega) (by omega)] at hafford'
  have hnew : (s.tentativeReserved+token.amount).toInt = s.tentativeReserved.toInt+token.amount.toInt :=
    Int64.toInt_add_of_range (by omega) (by omega)
  refine h.change hs (List.forall_mem_cons.mpr ⟨h0,h.nonneg⟩) (fun b => ?_) (by rw [hnew]; simp only; omega)
  rw [outstanding_cons,amountFor,hnew]
  split_ifs <;> omega

/-- A token is swapped for one of the same account. -/
theorem swap (h : Sound l) (token' : ReservationToken) {s : AccountState} (ht : token ∈ l.tokens)
    (hs : l.accountManager.accounts[token.accountId]? = some s)
    (hacct : token'.accountId = token.accountId) (h0 : 0 ≤ token'.amount.toInt)
    (hafford : token'.amount ≤ s.buyingPower-s.tentativeReserved+token.amount) :
    Sound ⟨l.accountManager.put token.accountId
      { s with tentativeReserved := s.tentativeReserved-token.amount+token'.amount },token'::l.tokens.erase token⟩ := by
  have hres := h.reserved_nonneg hs
  have hsolvent := h.solvent _ s hs
  have hbp := Int64.toInt_lt s.buyingPower
  have hold := h.nonneg token ht
  have hle := h.amount_le ht
  rw [← h.reserved_eq hs] at hle
  have hafford' := Int64.le_iff_toInt_le.mp hafford
  have havail : (s.buyingPower-s.tentativeReserved).toInt = s.buyingPower.toInt-s.tentativeReserved.toInt :=
    Int64.toInt_sub_of_range (by omega) (by omega)
  rw [Int64.toInt_add_of_range (by omega) (by omega),havail] at hafford'
  have hless : (s.tentativeReserved-token.amount).toInt = s.tentativeReserved.toInt-token.amount.toInt :=
    Int64.toInt_sub_of_range (by omega) (by omega)
  have hnew : (s.tentativeReserved-token.amount+token'.amount).toInt =
      s.tentativeReserved.toInt-token.amount.toInt+token'.amount.toInt := by
    rw [Int64.toInt_add_of_range (by omega) (by omega),hless]
  refine h.change hs (List.forall_mem_cons.mpr ⟨h0,fun t hmem => h.nonneg t (List.mem_of_mem_erase hmem)⟩)
    (fun b => ?_) (by rw [hnew]; simp only; omega)
  rw [outstanding_cons,outstanding_erase ht,amountFor,amountFor,hnew,hacct]
  split_ifs <;> omega

/-- A token is given up, and the account's money moves by `δ`, which costs at most the token. -/
theorem consume (h : Sound l) (ht : token ∈ l.tokens) {f : AccountState → AccountState}
    (hf : ∀ s, (f s).tentativeReserved = s.tentativeReserved-token.amount)
    (hle : ∀ s, l.accountManager.accounts[token.accountId]? = some s →
      s.buyingPower.toInt-token.amount.toInt ≤ (f s).buyingPower.toInt) {m : AccountManager}
    (hm : m = match l.accountManager.accounts[token.accountId]? with
      | none => l.accountManager
      | some s => l.accountManager.put token.accountId (f s)) :
    Sound ⟨m,l.tokens.erase token⟩ := by
  have hnn : ∀ t ∈ l.tokens.erase token, 0 ≤ t.amount.toInt := fun t hmem => h.nonneg t (List.mem_of_mem_erase hmem)
  have hle' := h.amount_le ht
  have h0 := h.nonneg token ht
  cases hs : l.accountManager.accounts[token.accountId]? with
  | none =>
    -- tokens of no account hold nothing
    rw [hs] at hm
    simp only at hm
    rw [h.balanced,hs,Option.elim_none] at hle'
    subst hm
    refine ⟨hnn,fun b => ?_,h.solvent⟩
    change _ = (l.accountManager.accounts[b]?).elim 0 _
    rw [outstanding_erase ht,h.balanced,amountFor]
    split_ifs <;> omega
  | some s =>
    rw [hs] at hm
    subst hm
    have hsolvent := h.solvent _ s hs
    have hbp := Int64.toInt_lt s.tentativeReserved
    rw [← h.reserved_eq hs] at hle'
    have hnew : (f s).tentativeReserved.toInt = s.tentativeReserved.toInt-token.amount.toInt := by
      rw [hf,Int64.toInt_sub_of_range (by omega) (by omega)]
    have hmoney := hle s hs
    refine h.change hs hnn (fun b => ?_) (by omega)
    rw [outstanding_erase ht,amountFor,hnew]
    split_ifs <;> omega

/-- A token that holds nothing, as it comes with commands that reserve nothing. -/
theorem empty (h : Sound l) (h0 : token.amount = 0) : Sound ⟨l.accountManager,token::l.tokens⟩ := by
  have hzero : token.amount.toInt = 0 := by rw [h0,Int64.toInt_zero]
  refine ⟨List.forall_mem_cons.mpr ⟨hzero.ge,h.nonneg⟩,fun b => ?_,h.solvent⟩
  rw [outstanding_cons,amountFor,hzero,ite_self,zero_add]
  exact h.balanced b

theorem toInt_priced {price qty : Int64} (hp : Priced price qty) :
    0 ≤ (price*qty).toInt ∧ (price*qty).toInt = price.toInt*qty.toInt := by
  obtain ⟨hprice,hqty,hfit⟩ := hp
  have h0 : 0 ≤ price.toInt*qty.toInt :=
    Int.mul_nonneg (Int64.pos_iff_toInt.mp hprice).le (Int64.pos_iff_toInt.mp hqty).le
  have heq := Int64.toInt_mul_of_range (a := price) (b := qty) (by omega) hfit
  exact ⟨heq ▸ h0,heq⟩

theorem checkAndReserve (h : Sound l) {cmd : Command} (ha : Reservable cmd) {m : AccountManager}
    (hok : l.accountManager.checkAndReserve cmd = .ok (token,m)) : Sound ⟨m,token::l.tokens⟩ := by
  cases cmd with
  | newOrder order =>
    obtain ⟨s,hs,htoken,rfl⟩ := AccountManager.checkAndReserveOrder_ok hok
    have hafford := AccountManager.checkAndReserveOrder_afford hs hok
    have h0 : 0 ≤ (AccountManager.orderRequired order).toInt := by
      cases hside : order.side with
      | buy =>
        have hreq : AccountManager.orderRequired order = order.price*order.qty := by
          rw [AccountManager.orderRequired,hside]
        rw [hreq]
        exact (toInt_priced (ha hside)).1
      | sell =>
        have hreq : AccountManager.orderRequired order = 0 := by rw [AccountManager.orderRequired,hside]
        rw [hreq,Int64.toInt_zero]
    subst htoken
    exact h.reserve ⟨order.accountId,order.symbolId,AccountManager.orderRequired order,order.orderId⟩ hs h0 hafford
  | replace replace =>
    have hnone : l.accountManager.accounts[replace.accountId]? ≠ none := by
      intro hnone
      simp only [AccountManager.checkAndReserve,AccountManager.checkAndReserveReplace,hnone] at hok
      cases hok
    obtain ⟨s,hs⟩ := Option.ne_none_iff_exists'.mp hnone
    obtain ⟨hafford,rfl,rfl⟩ := AccountManager.checkAndReserveReplace_ok hs hok
    exact h.reserve ⟨replace.accountId,replace.symbolId,replace.newPrice*replace.newQty,replace.orderId⟩ hs
      (toInt_priced ha).1 hafford
  | cancel c =>
    obtain ⟨rfl,rfl⟩ := Prod.mk.inj (Except.ok.inj hok)
    exact h.empty rfl
  | setRiskLimits srl =>
    obtain ⟨rfl,rfl⟩ := Prod.mk.inj (Except.ok.inj hok)
    exact h.empty rfl
  | queryAccount qa =>
    obtain ⟨rfl,rfl⟩ := Prod.mk.inj (Except.ok.inj hok)
    exact h.empty rfl
  | authenticate auth =>
    obtain ⟨rfl,rfl⟩ := Prod.mk.inj (Except.ok.inj hok)
    exact h.empty rfl

theorem adjustReservation (h : Sound l) {replace : Replace} (ht : token ∈ l.tokens)
    (hacct : token.accountId = replace.accountId) (hpriced : Priced replace.newPrice replace.newQty)
    {token' : ReservationToken} {m : AccountManager}
    (hok : l.accountManager.adjustReservation token replace = .ok (token',m)) :
    Sound ⟨m,token'::l.tokens.erase token⟩ := by
  obtain ⟨s,hs,htoken,rfl⟩ := AccountManager.adjustReservation_ok hok
  have hafford := AccountManager.adjustReservation_afford hs hok
  rw [← hacct] at hs htoken ⊢
  subst htoken
  exact h.swap ⟨token.accountId,replace.symbolId,replace.newPrice*replace.newQty,replace.orderId⟩ ht hs rfl
    (toInt_priced hpriced).1 hafford

theorem releaseReservation (h : Sound l) (ht : token ∈ l.tokens) :
    Sound ⟨l.accountManager.releaseReservation token,l.tokens.erase token⟩ := by
  have h0 := h.nonneg token ht
  exact h.consume ht (f := fun s => { s with tentativeReserved := s.tentativeReserved-token.amount }) (fun _ => rfl)
    (fun s _ => by simp only; omega) rfl

theorem applyFill (h : Sound l) {fill : Fill} {isBuy : Bool} (ht : token ∈ l.tokens)
    (hsettles : l.Settles fill token isBuy) :
    Sound ⟨l.accountManager.applyFill fill token isBuy,l.tokens.erase token⟩ := by
  obtain ⟨hprice,hqty,hcost⟩ := hsettles
  have hamount := Int64.toInt_lt token.amount
  have hfit : fill.price.toInt*fill.qty.toInt < 2^63 := by
    cases isBuy with
    | true => exact hcost.trans_lt hamount
    | false => exact hcost.1
  obtain ⟨h0,heq⟩ := toInt_priced ⟨hprice,hqty,hfit⟩
  have hnn := h.nonneg token ht
  refine h.consume ht (f := fun s => AccountManager.fillAccount s fill token isBuy) (fun _ => rfl) (fun s hs => ?_) rfl
  have hsolvent := h.solvent _ s hs
  have hres := h.reserved_nonneg hs
  have hbp := Int64.toInt_lt s.buyingPower
  cases isBuy with
  | true =>
    have hle := h.amount_le ht
    rw [← h.reserved_eq hs] at hle
    have hspent : fill.price.toInt*fill.qty.toInt ≤ token.amount.toInt := hcost
    change _ ≤ (s.buyingPower-fill.price*fill.qty).toInt
    rw [Int64.toInt_sub_of_range (by omega) (by omega)]
    omega
  | false =>
    have hsum := hcost.2 s hs
    change _ ≤ (s.buyingPower+fill.price*fill.qty).toInt
    rw [Int64.toInt_add_of_range (by omega) (by omega)]
    omega

end Sound

theorem Sound.call (h : Sound l) {c : Call} (ha : l.Allows c) : Sound (l.call c).1 := by
  cases c with
  | createAccount a buyingPower => exact h.createAccount ha.1 ha.2
  | checkAndReserve cmd =>
    simp only [TokenLedger.call]
    cases hok : l.accountManager.checkAndReserve cmd with
    | error violation => exact h
    | ok r => exact h.checkAndReserve ha hok
  | adjustReservation token replace =>
    simp only [TokenLedger.call]
    cases hok : l.accountManager.adjustReservation token replace with
    | error violation => exact h
    | ok r => exact h.adjustReservation ha.1 ha.2.1 ha.2.2 hok
  | releaseReservation token => exact h.releaseReservation ha
  | applyFill fill token isBuy => exact h.applyFill ha.1 ha.2

theorem Run.sound (h : Run l) : Sound l := by
  induction h with
  | start =>
    have hnone : ∀ a : AccountId, AccountManager.new.accounts[a]? = none := fun a => by simp [AccountManager.new]
    refine ⟨fun _ ht => (List.not_mem_nil ht).elim,fun a => ?_,fun a s hs => ?_⟩
    · rw [hnone]
      rfl
    · rw [hnone] at hs
      cases hs
  | step h c ha ih => exact ih.call ha

/-- A call that fails changes nothing. -/
theorem call_failed (l : TokenLedger) {c : Call} {violation : RiskViolation} (h : (l.call c).2 = some violation) :
    (l.call c).1 = l := by
  cases c with
  | createAccount a buyingPower => cases h
  | checkAndReserve cmd =>
    simp only [call] at h ⊢
    cases hok : l.accountManager.checkAndReserve cmd with
    | error violation => rfl
    | ok r => rw [hok] at h; cases h
  | adjustReservation token replace =>
    simp only [call] at h ⊢
    cases hok : l.accountManager.adjustReservation token replace with
    | error violation => rfl
    | ok r => rw [hok] at h; cases h
  | releaseReservation token => cases h
  | applyFill fill token isBuy => cases h

/-- In every reachable state an account has reserved exactly what its tokens hold and can pay for it, and a call
that fails leaves every account as it is. -/
theorem Run.reserved (h : Run l) :
    (∀ (a : AccountId) s, l.accountManager.accounts[a]? = some s →
      s.tentativeReserved.toInt = outstanding l.tokens a ∧ 0 ≤ s.tentativeReserved ∧
        s.tentativeReserved ≤ s.buyingPower) ∧
    ∀ c violation, (l.call c).2 = some violation → (l.call c).1 = l := by
  refine ⟨fun a s hs => ⟨h.sound.reserved_eq hs,?_,?_⟩,fun c violation hc => l.call_failed hc⟩
  · rw [Int64.le_iff_toInt_le,Int64.toInt_zero]
    exact h.sound.reserved_nonneg hs
  · exact Int64.le_iff_toInt_le.mpr (h.sound.solvent a s hs)

/-- Two buys, a larger replacement of the second, and a fill of the first below its price. -/
theorem reserved_afterFill : ∃ l s, Run l ∧ l.accountManager.accounts[(7 : AccountId)]? = some s ∧
    s.tentativeReserved.toInt = outstanding l.tokens 7 ∧ outstanding l.tokens 7 = 360 := by
  have hrun := ((((Run.start.step (.createAccount 7 1000) ?_).step
    (.checkAndReserve (.newOrder ⟨1,1,7,1,.buy,100,5,.gtc,⟨false⟩⟩)) ?_).step
    (.checkAndReserve (.newOrder ⟨2,2,7,1,.buy,40,5,.gtc,⟨false⟩⟩)) ?_).step
    (.adjustReservation ⟨7,1,200,2⟩ ⟨3,2,7,1,60,6⟩) ?_).step (.applyFill ⟨1,1,1,1,9,90,5⟩ ⟨7,1,500,1⟩ true) ?_
  · exact ⟨_,_,hrun,rfl,((Run.reserved hrun).1 7 _ rfl).1,by decide⟩
  · exact ⟨by simp [AccountManager.new],by decide⟩
  · exact fun _ => ⟨by decide,by decide,by decide⟩
  · exact fun _ => ⟨by decide,by decide,by decide⟩
  · exact ⟨by decide,rfl,by decide,by decide,by decide⟩
  · exact ⟨by decide,by decide,by decide,by decide⟩

end TokenLedger
end Gateway
end HighPerfTrading
