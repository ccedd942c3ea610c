import UnionVoyager.Zkgm.Fill

/-!
# Rules of the runtime

How the messages of a response run, stated once.

* `runSub_cases` — what a message that ran did: itself, then its reply.
* `run_minterCalls`, `run_accountMessages`, `runSub_writeAck`, `runSub_relayerFill`, … — the value of
  each kind of message zkgm sends while it executes a packet.
-/

namespace UnionVoyager.Zkgm

open Lib
open Core (Addr)

variable {X : Type} {out : Outside X} {env : Env}

/-! ## The invariant rule -/

variable {fuel : Nat} {w : World X}

theorem runSub_cases {w' : World X} {sub : SubMsg} (h : runSub out env (fuel + 1) w sub = .ok w') :
    (∃ w₁ d, runMsg out env (runSub out env fuel) w sub.msg = .ok (w₁, d) ∧
      ((sub.reply = none ∧ w' = w₁) ∨ ∃ on id, sub.reply = some (on, id) ∧
        runReply env (runSub out env fuel) w₁ id (some d) = .ok w')) ∨
    (∃ e id, runMsg out env (runSub out env fuel) w sub.msg = .error e ∧
      sub.reply = some (.always, id) ∧ runReply env (runSub out env fuel) w id none = .ok w') := by
  unfold runSub at h
  split at h
  · rename_i w₁ d on id hmsg hreply
    exact .inl ⟨w₁, d, hmsg, .inr ⟨on, id, hreply, h⟩⟩
  · rename_i w₁ d hmsg hreply
    cases h
    exact .inl ⟨_, d, hmsg, .inl ⟨hreply, rfl⟩⟩
  · rename_i e id hmsg hreply
    exact .inr ⟨e, id, hmsg, hreply, h⟩
  · cases h

/-- Every message of the class `M` keeps `R`, as do the replies it asks for, and what they cause is in
    the class again. -/
structure Closed (out : Outside X) (env : Env) (R : World X → World X → Prop) (M : SubMsg → Prop) : Prop where
  refl : ∀ w, R w w
  trans : ∀ {w w₁ w₂}, R w w₁ → R w₁ w₂ → R w w₂
  external : ∀ {w w' sub d}, M sub → runExternal out env w sub.msg = some (w', d) → R w w'
  self : ∀ {w : World X} {sub info msg s messages}, M sub → selfMsg env sub.msg = some (info, msg) →
    execute env info msg w.state = .ok (s, messages) →
    R w { w with state := s } ∧ ∀ m ∈ messages, M m
  reply : ∀ {w : World X} {sub on id result s messages}, M sub → sub.reply = some (on, id) →
    Zkgm.reply env id result w.state = .ok (s, messages) →
    R w { w with state := s } ∧ ∀ m ∈ messages, M m

section Closed

variable {R : World X → World X → Prop} {M : SubMsg → Prop}

theorem Closed.foldlM_of (hc : Closed out env R M) {run : World X → SubMsg → Result (World X)}
    (hrun : ∀ w sub w', M sub → run w sub = .ok w' → R w w') :
    ∀ {messages : Response} {w w' : World X}, (∀ m ∈ messages, M m) →
      messages.foldlM run w = .ok w' → R w w'
  | [], w, w', _, h => by
    obtain rfl : w = w' := by simpa using h
    exact hc.refl w
  | m :: messages, w, w', hM, h => by
    rw [List.foldlM_cons, bind_eq_ok] at h
    obtain ⟨w₁, h₁, h₂⟩ := h
    have hfirst := hrun w m w₁ (hM m (List.mem_cons_self ..)) h₁
    exact hc.trans hfirst
      (Closed.foldlM_of hc hrun (fun m hm => hM m (List.mem_cons_of_mem _ hm)) h₂)

theorem Closed.runSub (hc : Closed out env R M) : ∀ {fuel : Nat} {w w' : World X} {sub : SubMsg}, M sub →
      Zkgm.runSub out env fuel w sub = .ok w' → R w w' := by
  intro fuel
  -- by induction on how deep messages nest
  induction fuel with
  | zero =>
    intro w w' sub _ h
    cases h
  | succ fuel ih =>
    intro w w' sub hM h
    have hrun : ∀ w sub w', M sub → Zkgm.runSub out env fuel w sub = .ok w' → R w w' :=
      fun w sub w' hM h => ih hM h
    have hreply : ∀ {w₁ on id result}, sub.reply = some (on, id) →
        runReply env (Zkgm.runSub out env fuel) w₁ id result = .ok w' → R w₁ w' := by
      intro w₁ on id result hsub hr
      simp only [runReply, bind_eq_ok] at hr
      obtain ⟨⟨s, messages⟩, hs, hmsgs⟩ := hr
      obtain ⟨hR, hMs⟩ := hc.reply hM hsub hs
      exact hc.trans hR (hc.foldlM_of hrun hMs hmsgs)
    rcases runSub_cases h with ⟨w₁, d, hmsg, hrest⟩ | ⟨e, id, -, hsub, hr⟩
    · have hfirst : R w w₁ := by
        unfold runMsg at hmsg
        split at hmsg
        · rename_i info msg hself
          simp only [bind_eq_ok, pure_eq_ok] at hmsg
          obtain ⟨⟨s, messages⟩, hs, w₂, hmsgs, hw⟩ := hmsg
          cases hw
          obtain ⟨hR, hMs⟩ := hc.self hM hself hs
          exact hc.trans hR (hc.foldlM_of hrun hMs hmsgs)
        · rw [orErr_eq_ok] at hmsg
          exact hc.external hM hmsg
      rcases hrest with ⟨-, rfl⟩ | ⟨on, id, hsub, hr⟩
      · exact hfirst
      · exact hc.trans hfirst (hreply hsub hr)
    · exact hreply hsub hr

theorem Closed.foldlM (hc : Closed out env R M) {messages : Response} {w' : World X}
    (hM : ∀ m ∈ messages, M m)
    (h : messages.foldlM (Zkgm.runSub out env fuel) w = .ok w') : R w w' :=
  hc.foldlM_of (fun _ _ _ hM h => hc.runSub hM h) hM h

end Closed

/-! ## Single messages -/

variable {msg : CosmosMsg}

theorem runSub_ok {w₁ : World X} {d : ReplyData} {on : ReplyOn} {id : ReplyId}
    (h : runMsg out env (runSub out env fuel) w msg = .ok (w₁, d)) :
      runSub out env (fuel + 1) w ⟨msg, some (on, id)⟩ =
      runReply env (runSub out env fuel) w₁ id (some d) := by
  unfold runSub
  rw [h]

theorem runSub_error {e : Failure} {id : ReplyId}
    (h : runMsg out env (runSub out env fuel) w msg = .error e) :
    runSub out env (fuel + 1) w ⟨msg, some (.always, id)⟩ = runReply env (runSub out env fuel) w id none := by
  unfold runSub
  rw [h]

theorem runSub_external (h : selfMsg env msg = none) : runSub out env (fuel + 1) w msg.plain =
      Prod.fst <$> orErr (runExternal out env w msg) .external := by
  simp only [runSub, runMsg, CosmosMsg.plain, h]
  cases runExternal out env w msg with
  | none | some => rfl

theorem runSub_minter (fuel : Nat) (w : World X) (c : MinterCall) :
    runSub out env (fuel + 1) w (CosmosMsg.minter c).plain =
      (fun x => { w with ext := x }) <$> orErr (out.minter w.ext c) .external := by
  rw [runSub_external rfl]
  simp only [runExternal]
  cases out.minter w.ext c with
  | none | some => rfl

theorem runSub_account (fuel : Nat) (w : World X) (m : AccountMsg) :
    runSub out env (fuel + 1) w (CosmosMsg.account m).plain =
      (fun x => { w with ext := x }) <$> orErr (out.account w.ext m) .external := by
  rw [runSub_external rfl]
  simp only [runExternal]
  cases out.account w.ext m with
  | none | some => rfl

theorem runSub_writeAck (fuel : Nat) (w : World X) (ack : AckData) :
      runSub out env (fuel + 1) w (writeAck ack) =
      .ok { w with state := internalWriteAck ack w.state } := by
  simp [runSub, runMsg, writeAck, CosmosMsg.plain, selfMsg, execute, require, ensure]
  rfl

theorem runSub_writeAcknowledgement {p : Packet} {ack : Acknowledgement} {y : X}
    (h : out.writeAcknowledgement w.ext p ack = some y) :
    runSub out env (fuel + 1) w (CosmosMsg.writeAcknowledgement p ack).plain =
      .ok { w with ext := y, log := w.log ++ [.acked p ack] } := by
  rw [runSub_external rfl]
  simp only [runExternal, h]
  rfl

/-! ## Calls of the minter -/

theorem foldlM_plain {α : Type} {act : X → α → Option X} {msg : α → SubMsg}
    {run : World X → SubMsg → Result (World X)}
    (hrun : ∀ w a, run w (msg a) = (fun x => { w with ext := x }) <$> orErr (act w.ext a) .external) :
    ∀ (calls : List α) (w : World X), (calls.map msg).foldlM run w =
      (fun x => { w with ext := x }) <$> orErr (calls.foldlM act w.ext) .external
  | [], w => rfl
  | c :: calls, w => by
    simp only [List.map_cons, List.foldlM_cons, hrun]
    cases act w.ext c with
    | none => rfl
    | some x => exact foldlM_plain hrun calls { w with ext := x }

theorem run_minterCalls (fuel : Nat) (calls : List MinterCall) (w : World X) :
    (calls.map fun c => (CosmosMsg.minter c).plain).foldlM (runSub out env (fuel + 1)) w =
      (fun x => { w with ext := x }) <$> orErr (calls.foldlM out.minter w.ext) .external :=
  foldlM_plain (fun w c => runSub_minter fuel w c) calls w

theorem run_accountMessages (fuel : Nat) (account : List AccountMsg) (w : World X) :
    (accountMessages account).foldlM (runSub out env (fuel + 1)) w =
      (fun x => { w with ext := x }) <$> orErr (account.foldlM out.account w.ext) .external :=
  foldlM_plain (fun w m => runSub_account fuel w m) account w

end UnionVoyager.Zkgm
