import UnionVoyager.Zkgm.Minter
import UnionVoyager.Zkgm.Refund

/-!
# The coins of a send

`send` passes the coins it came with on to the minter, order by order: an order takes its amount of the
coins of its denom that are left, or nothing if none are left.  What no order takes stays in the contract.
-/

namespace UnionVoyager.Zkgm

open Lib
open Core (ChannelId Timestamp Addr Coin)

/-! ## Coins of messages and amounts of orders -/

/-- The coins attached to a message that escrows or burns. -/
def SubMsg.attached (m : SubMsg) : List Coin :=
  match m.msg with
  | .minter ⟨_, .escrow .., funds⟩ => funds
  | .minter ⟨_, .burnTokens .., funds⟩ => funds
  | _ => []

/-- The coins attached to the messages of a response, by denom. -/
def attached (r : Response) : Coins := Coins.ofList (r.flatMap SubMsg.attached)

/-- The amounts of the orders over a denom. -/
def total (orders : List Order) (denom : String) : Nat :=
  ((orders.filter fun o => o.baseToken = utf8 denom).map Order.baseAmount).sum

/-- The token orders that are sent with an instruction, its own or those of the instruction it forwards. -/
def Instruction.sentOrders : Instruction → List Order
  | .mk _ _ (.forward _ _ _ instruction) => instruction.orders
  | i => i.orders

theorem attached_append (r r' : Response) (d : String) :
    attached (r ++ r') d = attached r d + attached r' d := by
  unfold attached
  rw [List.flatMap_append, Coins.ofList_append]

theorem total_append (os os' : List Order) (d : String) : total (os ++ os') d = total os d + total os' d := by
  simp [total]

theorem total_single {o : Order} {base : String} (h : o.baseToken = utf8 base) (d : String) :
    total [o] d = if base = d then o.baseAmount else 0 := by
  unfold total
  by_cases hd : base = d
  · simp [h, hd]
  · have hne : utf8 base ≠ utf8 d := fun heq => hd (utf8_injective heq)
    simp [h, hd, hne]

/-! ## What an instruction takes -/

/-- What some orders took of the coins: attached coins and coins that are left are what there was, and the
    orders took what they could. -/
structure OrdersTook (orders : List Order) (w w' : Walk) : Prop where
  attached : ∀ d, attached w'.response d + w'.funds d = attached w.response d + w.funds d
  left : ∀ d, w'.funds d = w.funds d - total orders d

theorem OrdersTook.refl (w : Walk) : OrdersTook [] w w where
  attached _ := rfl
  left _ := rfl

variable {w' w : Walk}

theorem OrdersTook.trans {os os' : List Order} {w₁ : Walk} (h : OrdersTook os w w₁)
    (h' : OrdersTook os' w₁ w') : OrdersTook (os ++ os') w w' where
  attached d := by rw [h'.attached, h.attached]
  left d := by
    rw [h'.left, h.left, total_append]
    omega

variable {env : Env} {info : MessageInfo} {channelId : ChannelId} {path : U256}

/-- **A verified order takes its amount, or all that is left.** -/
theorem Order.took {o : Order} (h : o.verify env info channelId path w = .ok w') :
    OrdersTook [o] w w' := by
  obtain ⟨base, funds, coins, hbase, -, htakes, hcase⟩ := Order.verify_cases h
  have hresponse : ∃ call, w'.response = w.response ++ [call] ∧ call.attached = coins := by
    rcases hcase with ⟨-, -, rfl⟩ | ⟨-, rfl⟩
    · exact ⟨_, rfl, rfl⟩
    · exact ⟨_, rfl, rfl⟩
  have hfunds : w'.funds = funds := by
    rcases hcase with ⟨-, -, rfl⟩ | ⟨-, rfl⟩ <;> rfl
  obtain ⟨call, hcall, hcoins⟩ := hresponse
  constructor
  · intro d
    have hone : Zkgm.attached [call] d = Coins.ofList coins d := by
      rw [Zkgm.attached, List.flatMap_singleton, hcoins]
    have hsplit := (htakes.took d).1
    rw [hcall, attached_append, hone, hfunds]
    omega
  · intro d
    rw [hfunds, total_single hbase]
    exact (htakes.took d).2

theorem Leaf.took {l : Leaf} (h : l.verify env info channelId path w = .ok w') :
    OrdersTook (ordersOf [l]) w w' := by
  cases l with
  | order o => exact Order.took h
  | call c =>
    simp only [Leaf.verify, bind_eq_ok, pure_eq_ok] at h
    obtain ⟨_, -, rfl⟩ := h
    exact OrdersTook.refl w

theorem took_of_verifyBatch : ∀ {leaves : List Leaf} {w w' : Walk},
    verifyBatch env info channelId path (leaves.map Leaf.toInstruction) w = .ok w' →
      OrdersTook (ordersOf leaves) w w'
  | [], w, w', h => by
    cases h
    exact OrdersTook.refl w
  | l :: leaves, w, w', h => by
    rw [List.map_cons, verifyBatch_cons, bind_eq_ok] at h
    obtain ⟨w₁, hfirst, hrest⟩ := h
    have hsplit : ordersOf (l :: leaves) = ordersOf [l] ++ ordersOf leaves := by
      rw [← List.singleton_append, ordersOf, ordersOf, ordersOf, List.filterMap_append]
    rw [hsplit]
    exact (Leaf.took hfirst).trans (took_of_verifyBatch hrest)

theorem took_of_verify_orders {i : Instruction} (hi : i.opcode ≠ OP_FORWARD)
    (h : verifyInternal env info channelId path i w = .ok w') : OrdersTook i.orders w w' := by
  rcases verifyInternal_cases h with ⟨l, rfl⟩ | ⟨is, rfl, hbatch⟩ | ⟨p, th, tt, j, rfl, -⟩
  · rw [verifyInternal_leaf] at h
    have horders : l.toInstruction.orders = ordersOf [l] := Instruction.Holds.orders (.inr ⟨l, rfl, rfl⟩)
    rw [horders]
    exact Leaf.took h
  · obtain ⟨leaves, rfl⟩ := exists_leaves_of_verify hbatch
    have horders : (batchOf leaves).orders = ordersOf leaves := Instruction.Holds.orders (.inl rfl)
    show OrdersTook (batchOf leaves).orders w w'
    rw [horders]
    exact took_of_verifyBatch hbatch
  · exact absurd rfl hi

theorem took_of_verify {i : Instruction} (h : verifyInternal env info channelId path i w = .ok w') :
    OrdersTook i.sentOrders w w' := by
  rcases verifyInternal_cases h with ⟨l, rfl⟩ | ⟨is, rfl, -⟩ | ⟨p, th, tt, j, rfl, hj, hinner⟩
  · have hne : l.toInstruction.opcode ≠ OP_FORWARD := by
      rcases l with (_ | _) | _
      · exact (by decide : OP_TOKEN_ORDER ≠ OP_FORWARD)
      · exact (by decide : OP_TOKEN_ORDER ≠ OP_FORWARD)
      · exact (by decide : OP_CALL ≠ OP_FORWARD)
    have hsent : l.toInstruction.sentOrders = l.toInstruction.orders := by
      rcases l with (_ | _) | _ <;> rfl
    rw [hsent]
    exact took_of_verify_orders hne h
  · have hne : (batchInstruction is).opcode ≠ OP_FORWARD := (by decide : OP_BATCH ≠ OP_FORWARD)
    exact took_of_verify_orders hne h
  · have hne : j.opcode ≠ OP_FORWARD := by
      intro heq
      rw [heq] at hj
      cases hj
    exact took_of_verify_orders hne hinner

/-! ## The coins of a send -/

/-- **The coins attached to the messages of a send are, per denom, the lesser of its own coins and the sum of
    its orders**: none of the contract's coins is spent, and all of them are passed on iff the orders sum to
    at least the coins, in every denom. -/
theorem send_attaches {timeout : Timestamp} {salt : U256} {i : Instruction} {s s' : State}
    {r : Response} (h : send env info channelId timeout salt i s = .ok (s', r)) :
    (∀ d, attached r d = min (Coins.ofList info.funds d) (total i.sentOrders d)) ∧
      ((∀ d, attached r d = Coins.ofList info.funds d) ↔
        ∀ d, Coins.ofList info.funds d ≤ total i.sentOrders d) := by
  simp only [send, bind_eq_ok, pure_eq_ok, Prod.mk.injEq] at h
  obtain ⟨w, hw, rfl, rfl⟩ := h
  have htook := took_of_verify hw
  have hmin : ∀ d, attached (w.response ++ [(CosmosMsg.packetSend ⟨channelId, timeout,
      .zkgm ⟨env.hashing.hashSendSalt info.sender salt, 0, i⟩⟩).plain]) d =
        min (Coins.ofList info.funds d) (total i.sentOrders d) := by
    intro d
    have hattached : attached w.response d + w.funds d = 0 + Coins.ofList info.funds d := htook.attached d
    have hleft : w.funds d = Coins.ofList info.funds d - total i.sentOrders d := htook.left d
    rw [attached_append]
    show attached w.response d + 0 = _
    omega
  refine ⟨hmin, ?_⟩
  simp only [hmin]
  constructor
  · intro hall d
    have := hall d
    omega
  · intro hall d
    have := hall d
    omega

namespace Sample

/-- The five tokens of the order and no others. -/
def exactInfo : MessageInfo := ⟨"alice", [⟨"uatom", 5⟩]⟩

/-- Two more than the order needs, and three of a denom that it does not mention. -/
def surplusInfo : MessageInfo := ⟨"alice", [⟨"uatom", 7⟩, ⟨"uosmo", 3⟩]⟩

/-- The message of the order. -/
def escrowCall : MinterCall := ⟨"minter", .escrow "alice" "uatom" "minter" 5, [⟨"uatom", 5⟩]⟩

def cw20Env : MinterEnv Cw20Minter := ⟨"minter", fun _ => false, fun _ _ _ => .error .std⟩

def factoryEnv : MinterEnv TokenfactoryMinter := ⟨"minter", fun _ => false, fun _ _ _ => .error .std⟩

def cw20Minter : Cw20Minter := ⟨"zkgm", fun _ => false⟩

def factoryMinter : TokenfactoryMinter := ⟨"zkgm", "operator", fun _ => none⟩

end Sample

open Sample in
theorem exact_coins_passed_on :
    ∃ s' r, send Env.ideal exactInfo channelOne 100 7 (Order.v2 sampleOrder).toInstruction State.fresh =
        .ok (s', r) ∧ ∀ d, attached r d = Coins.ofList exactInfo.funds d := by
  refine ⟨_, _, rfl, ?_⟩
  apply (@send_attaches Env.ideal exactInfo channelOne 100 7 (Order.v2 sampleOrder).toInstruction
    State.fresh _ _ rfl).2.mpr
  intro d
  have hbase : (Order.v2 sampleOrder).baseToken = utf8 "uatom" := rfl
  have hsent : (Order.v2 sampleOrder).toInstruction.sentOrders = [Order.v2 sampleOrder] := rfl
  rw [hsent, total_single hbase]
  unfold exactInfo
  rw [Coins.ofList_single]
  exact le_rfl

open Sample in
/-- **Coins that no order takes stay in the contract**, and either minter accepts the message. -/
theorem surplus_stays :
    ∃ s' packet, send Env.ideal surplusInfo channelOne 100 7 (Order.v2 sampleOrder).toInstruction
        State.fresh =
        .ok (s', [(CosmosMsg.minter escrowCall).plain, (CosmosMsg.packetSend packet).plain]) ∧
      cw20Minter.execute cw20Env ⟨"zkgm", escrowCall.funds⟩ escrowCall.msg =
        .ok (cw20Minter.saveNativeToken "uatom", []) ∧
      factoryMinter.execute factoryEnv ⟨"zkgm", escrowCall.funds⟩ escrowCall.msg = .ok (factoryMinter, []) ∧
      Coins.ofList surplusInfo.funds "uatom" = 7 ∧ Coins.ofList surplusInfo.funds "uosmo" = 3 ∧
      ∀ d, attached [(CosmosMsg.minter escrowCall).plain, (CosmosMsg.packetSend packet).plain] d =
        if "uatom" = d then 5 else 0 := by
  refine ⟨_, _, rfl, ?_, ?_, ?_, ?_, ?_⟩
  · rfl
  · rfl
  · decide
  · decide
  · intro d
    exact Coins.ofList_single ⟨"uatom", 5⟩ d

end UnionVoyager.Zkgm
