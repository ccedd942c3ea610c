import UnionVoyager.Lib.Bytes
import UnionVoyager.Lib.Machine
import UnionVoyager.Lib.Result
import Mathlib.Data.BitVec

/-!
# The proxy account

An account carries out the messages of its admins: local ones call it, remote ones reach it through zkgm.
The messages it dispatches may call the account itself, which counts as being an admin.

* `execute` — one message; `execute_eq_ok` — what an accepted message changes.
* `State`, `step` — the account between messages, with what is yet to be carried out and on whose behalf.
* `dispatched_ordered` — what is dispatched goes back to an order of an admin of that time.
-/

namespace UnionVoyager.Cw.Account

open Lib Lib.Machine List

/-! ## The contract -/

abbrev Addr := String

structure LocalAdmin where
  address : String
  deriving DecidableEq

structure RemoteAdmin where
  /-- The address of the admin on the counterparty chain. -/
  address : Bytes
  channelId : UInt32
  path : BitVec 256
  deriving DecidableEq

inductive Admin where
  | localAdmin (admin : LocalAdmin)
  | remoteAdmin (admin : RemoteAdmin)
  deriving DecidableEq

inductive ContractError where
  | std
  | onlyAdmin (sender : Admin)
  | onlyZkgm (sender : Addr)
  | intentsNotSupported
  | oneAdminRequired
  | zkgmNotConfigured

abbrev Result := Except ContractError

inductive InitMsg where
  | zkgm (zkgm : Addr) (path : BitVec 256) (channelId : UInt32) (sender : Bytes)
  | localAdmin (admin : Addr)

/-- A message for the chain: a call of a contract, or anything else. -/
inductive CosmosMsg where
  | execute (contract : Addr) (msg : Bytes)
  | other (msg : Bytes)

/-- What zkgm hands over: the sender on the counterparty chain, where its packet came in, and the message. -/
structure OnZkgm where
  sender : Bytes
  destinationChannelId : UInt32
  path : BitVec 256
  message : Bytes

def OnZkgm.admin (o : OnZkgm) : RemoteAdmin := ⟨o.sender, o.destinationChannelId, o.path⟩

inductive ExecuteMsg where
  | setZkgm (zkgm : Addr)
  | addAdmin (admin : Admin)
  | removeAdmin (admin : Admin)
  | dispatch (messages : List CosmosMsg)
  | onZkgm (onZkgm : OnZkgm)
  | onIntentZkgm

/-- The two stores of the contract. -/
structure Storage where
  admins : Finset Admin
  zkgm : Option Addr

/-- The address of the contract, and the JSON decoders of calls and of lists of messages. -/
structure Env where
  contract : Addr
  fromJson : Bytes → Option ExecuteMsg
  messagesFromJson : Bytes → Option (List CosmosMsg)

variable (env : Env)

def ensureRemoteAdmin (a : Storage) (sender : Addr) (admin : RemoteAdmin) : Result Unit := do
  let zkgm ← orErr a.zkgm .zkgmNotConfigured
  ensure (sender = zkgm) (.onlyZkgm sender)
  ensure (.remoteAdmin admin ∈ a.admins) (.onlyAdmin (.remoteAdmin admin))

def ensureLocalAdminOrSelf (a : Storage) (sender : Addr) : Result Unit :=
  if sender ≠ env.contract then
    ensure (.localAdmin ⟨sender⟩ ∈ a.admins) (.onlyAdmin (.localAdmin ⟨sender⟩))
  else
    .ok ()

def init : InitMsg → Storage
  | .zkgm zkgm path channelId sender => ⟨{.remoteAdmin ⟨sender, channelId, path⟩}, some zkgm⟩
  | .localAdmin admin => ⟨{.localAdmin ⟨admin⟩}, none⟩

def execute (a : Storage) (sender : Addr) : ExecuteMsg → Result (Storage × List CosmosMsg)
  | .setZkgm zkgm => do
    ensureLocalAdminOrSelf env a sender
    pure ({ a with zkgm := some zkgm }, [])
  | .addAdmin newAdmin => do
    ensureLocalAdminOrSelf env a sender
    pure ({ a with admins := insert newAdmin a.admins }, [])
  | .removeAdmin removedAdmin => do
    ensureLocalAdminOrSelf env a sender
    let admins := a.admins.erase removedAdmin
    ensure (admins ≠ ∅) .oneAdminRequired
    pure ({ a with admins := admins }, [])
  | .dispatch messages => do
    ensureLocalAdminOrSelf env a sender
    pure (a, messages)
  | .onZkgm onZkgm => do
    ensureRemoteAdmin a sender onZkgm.admin
    let messages ← orErr (env.messagesFromJson onZkgm.message) .std
    pure (a, messages)
  | .onIntentZkgm => .error .intentsNotSupported

/-! ## The account between messages -/

/-- A dispatched message, and the admin on whose behalf it was dispatched. -/
structure Dispatched where
  message : CosmosMsg
  onBehalfOf : Admin

structure State where
  account : Storage
  /-- What was dispatched and is not carried out yet. -/
  pending : List Dispatched
  /-- Where a message that fails may go back to. -/
  saved : List (Storage × List Dispatched)

/-- What happens at the account.  The order in which dispatched messages are carried out is left open. -/
inductive Op where
  /-- someone else calls the account -/
  | call (sender : Addr) (msg : ExecuteMsg)
  /-- a dispatched message is carried out -/
  | carryOut (index : Nat)
  /-- a message whose failure will be caught starts -/
  | save
  /-- it fails: all that happened since is undone -/
  | rollback
  /-- it succeeds -/
  | release

/-- Either an order that an admin gave itself, or a dispatched message. -/
inductive Event where
  | ordered (admin : Admin)
  | dispatched (d : Dispatched)

/-- On whose behalf a message is handled: zkgm names the remote admin, otherwise it is `caller`. -/
def behalf (caller : Admin) : ExecuteMsg → Admin
  | .onZkgm o => .remoteAdmin o.admin
  | _ => caller

/-- A message that the account handles: its sender, on whose behalf it was sent, and the message. -/
structure Incoming where
  sender : Addr
  caller : Admin
  msg : ExecuteMsg

/-- What the account has to handle: a call from outside (nobody else has the address of the contract), or a
dispatched message that calls the account itself. -/
def incoming (s : State) : Op → Option Incoming
  | .call sender msg => if sender = env.contract then none else some ⟨sender, .localAdmin ⟨sender⟩, msg⟩
  | .carryOut index =>
    match s.pending[index]? with
    | some ⟨.execute contract msg, caller⟩ =>
      if contract = env.contract then (env.fromJson msg).map fun m => ⟨contract, caller, m⟩ else none
    | _ => none
  | _ => none

/-- The state in which the message is handled: one that is carried out is not pending any more. -/
def prepare (s : State) : Op → State
  | .call _ _ => s
  | .carryOut index => { s with pending := s.pending.eraseIdx index }
  | .save => { s with saved := (s.account, s.pending) :: s.saved }
  | .rollback =>
    match s.saved with
    | [] => s
    | (account, pending) :: saved => { account := account, pending := pending, saved := saved }
  | .release => { s with saved := s.saved.tail }

/-- An order that its admin gives itself, not through a message of the account. -/
def Incoming.isOrder (i : Incoming) : Bool :=
  match i.msg with
  | .dispatch _ => i.sender ≠ env.contract
  | .onZkgm _ => true
  | _ => false

def Incoming.dispatches (i : Incoming) (messages : List CosmosMsg) : List Dispatched :=
  messages.map fun m => ⟨m, behalf i.caller i.msg⟩

def Incoming.events (i : Incoming) (messages : List CosmosMsg) : List Event :=
  (if i.isOrder env then [.ordered (behalf i.caller i.msg)] else []) ++ (i.dispatches messages).map
    .dispatched

/-- A message that is refused changes nothing. -/
def handle (s : State) (i : Incoming) : State × List Event :=
  match execute env s.account i.sender i.msg with
  | .ok (account, messages) =>
    ({ s with account := account, pending := s.pending ++ i.dispatches messages }, i.events env messages)
  | .error _ => (s, [])

def step (s : State) (op : Op) : State × List Event :=
  match incoming env s op with
  | some i => handle env (prepare s op) i
  | none => (prepare s op, [])

def start (msg : InitMsg) : State := ⟨init msg, [], []⟩

/-! ## What a message changes -/

variable {env}

/-- The sender is a local admin, or the contract. -/
def Entitled (env : Env) (a : Storage) (sender : Addr) : Prop := sender = env.contract ∨
      .localAdmin ⟨sender⟩ ∈ a.admins

variable {a a' : Storage} {sender : Addr}

@[simp] theorem ensureLocalAdminOrSelf_eq_ok {u : Unit} :
    ensureLocalAdminOrSelf env a sender = .ok u ↔ Entitled env a sender := by
  unfold ensureLocalAdminOrSelf Entitled
  split
  · rename_i hne
    simp [hne]
  · rename_i heq
    simp [not_not.mp heq]

@[simp] theorem ensureRemoteAdmin_eq_ok {admin : RemoteAdmin} {u : Unit} :
    ensureRemoteAdmin a sender admin = .ok u ↔ a.zkgm = some sender ∧ .remoteAdmin admin ∈ a.admins := by
  simp only [ensureRemoteAdmin, bind_eq_ok, orErr_eq_ok, ensure_eq_ok]
  constructor
  · rintro ⟨zkgm, hzkgm, _, rfl, hadmin⟩
    exact ⟨hzkgm, hadmin⟩
  · rintro ⟨hzkgm, hadmin⟩
    exact ⟨sender, hzkgm, (), rfl, hadmin⟩

/-- What an accepted message changes, and what it dispatches. -/
inductive Accepted (env : Env) (a : Storage) (sender : Addr) : ExecuteMsg → Storage →
      List CosmosMsg → Prop where
  | setZkgm {zkgm : Addr} (h : Entitled env a sender) :
      Accepted env a sender (.setZkgm zkgm) { a with zkgm := some zkgm } []
  | addAdmin {newAdmin : Admin} (h : Entitled env a sender) :
      Accepted env a sender (.addAdmin newAdmin) { a with admins := insert newAdmin a.admins } []
  | removeAdmin {removedAdmin : Admin} (h : Entitled env a sender) (hleft : a.admins.erase removedAdmin ≠ ∅) :
      Accepted env a sender (.removeAdmin removedAdmin) { a with admins := a.admins.erase removedAdmin } []
  | dispatch {messages : List CosmosMsg} (h : Entitled env a sender) :
      Accepted env a sender (.dispatch messages) a messages
  | onZkgm {o : OnZkgm} {messages : List CosmosMsg} (hzkgm : a.zkgm = some sender)
      (hadmin : .remoteAdmin o.admin ∈ a.admins) : Accepted env a sender (.onZkgm o) a messages

theorem execute_eq_ok {msg : ExecuteMsg} {r : Storage × List CosmosMsg}
    (h : execute env a sender msg = .ok r) : Accepted env a sender msg r.1 r.2 := by
  cases msg with
  | setZkgm zkgm =>
    simp only [execute, bind_eq_ok, ensureLocalAdminOrSelf_eq_ok, pure_eq_ok] at h
    obtain ⟨_, hentitled, rfl⟩ := h
    exact .setZkgm hentitled
  | addAdmin newAdmin =>
    simp only [execute, bind_eq_ok, ensureLocalAdminOrSelf_eq_ok, pure_eq_ok] at h
    obtain ⟨_, hentitled, rfl⟩ := h
    exact .addAdmin hentitled
  | removeAdmin removedAdmin =>
    simp only [execute, bind_eq_ok, ensureLocalAdminOrSelf_eq_ok, ensure_eq_ok, pure_eq_ok] at h
    obtain ⟨_, hentitled, _, hleft, rfl⟩ := h
    exact .removeAdmin hentitled hleft
  | dispatch messages =>
    simp only [execute, bind_eq_ok, ensureLocalAdminOrSelf_eq_ok, pure_eq_ok] at h
    obtain ⟨_, hentitled, rfl⟩ := h
    exact .dispatch hentitled
  | onZkgm o =>
    simp only [execute, bind_eq_ok, ensureRemoteAdmin_eq_ok, pure_eq_ok] at h
    obtain ⟨_, ⟨hzkgm, hadmin⟩, messages, -, rfl⟩ := h
    exact .onZkgm hzkgm hadmin
  | onIntentZkgm => cases h

theorem execute_removeAdmin {removedAdmin : Admin} (h : Entitled env a sender)
    (hleft : a.admins.erase removedAdmin ≠ ∅) :
    execute env a sender (.removeAdmin removedAdmin) =
      .ok ({ a with admins := a.admins.erase removedAdmin }, []) := by
  simp only [execute, bind_eq_ok, ensureLocalAdminOrSelf_eq_ok, ensure_eq_ok, pure_eq_ok]
  exact ⟨(), h, (), hleft, trivial⟩

def Removes (env : Env) (a : Storage) (i : Incoming) (removedAdmin : Admin) : Prop :=
  i.msg = .removeAdmin removedAdmin ∧ Entitled env a i.sender ∧ a.admins.erase removedAdmin ≠ ∅

variable {i : Incoming} {messages : List CosmosMsg}

theorem Accepted.mem (h : Accepted env a i.sender i.msg a' messages) {x : Admin} (hx : x ∈ a.admins)
    (hnot : ¬ Removes env a i x) : x ∈ a'.admins := by
  rcases i with ⟨sender, caller, msg⟩
  cases h with
  | setZkgm _ => exact hx
  | addAdmin _ => exact Finset.mem_insert_of_mem hx
  | @removeAdmin removedAdmin hentitled hleft =>
    refine Finset.mem_erase.mpr ⟨?_, hx⟩
    rintro rfl
    exact hnot ⟨rfl, hentitled, hleft⟩
  | dispatch | onZkgm => exact hx

theorem Accepted.zkgm {msg : ExecuteMsg} (h : Accepted env a sender msg a' messages)
    (hzkgm : a.zkgm ≠ none) : a'.zkgm ≠ none := by
  cases h with
  | setZkgm _ => exact Option.some_ne_none _
  | _ => exact hzkgm

variable {s : State} {op : Op}

theorem prepare_account (h : incoming env s op = some i) :
    (prepare s op).account = s.account ∧ (prepare s op).saved = s.saved := by
  cases op with
  | call | carryOut => exact ⟨rfl, rfl⟩
  | _ => cases h

theorem step_cases (env : Env) (s : State) (op : Op) : step env s op = (prepare s op, []) ∨
    ∃ i a messages, incoming env s op = some i ∧ Accepted env s.account i.sender i.msg a messages ∧
      step env s op = ({ prepare s op with account := a, pending :=
        (prepare s op).pending ++ i.dispatches messages }, i.events env messages) := by
  unfold step
  cases hi : incoming env s op with
  | none => exact .inl rfl
  | some i =>
    obtain ⟨hacct, -⟩ := prepare_account hi
    simp only [handle, hacct]
    cases hexec : execute env s.account i.sender i.msg with
    | error e => exact .inl rfl
    | ok r => exact .inr ⟨i, r.1, r.2, rfl, execute_eq_ok hexec, rfl⟩

/-- **An admin whose order is accepted is registered at that time.** -/
theorem ordered_registered {x : Admin} (h : .ordered x ∈ (step env s op).2) : x ∈ s.account.admins := by
  rcases step_cases env s op with hstep | ⟨i, a, messages, hi, hacc, hstep⟩
  · rw [hstep] at h
    cases h
  · rw [hstep] at h
    simp only [Incoming.events, mem_append, mem_map] at h
    rcases h with h | ⟨d, -, hd⟩
    · split at h
      · rename_i horder
        obtain rfl := Event.ordered.inj (List.mem_singleton.mp h)
        rcases i with ⟨sender, caller, msg⟩
        cases hacc with
        | dispatch hentitled =>
          -- a call from outside is made on behalf of its sender
          have hsender : sender ≠ env.contract := by simpa [Incoming.isOrder] using horder
          cases op with
          | call sender' msg' =>
            simp only [incoming] at hi
            split at hi
            · cases hi
            · cases hi
              exact hentitled.resolve_left hsender
          | carryOut index =>
            simp only [incoming] at hi
            split at hi
            · split at hi
              · rename_i hself
                obtain ⟨m, -, hm⟩ := Option.map_eq_some_iff.mp hi
                cases hm
                exact absurd hself hsender
              · cases hi
            · cases hi
          | _ => cases hi
        | onZkgm _ hadmin => exact hadmin
        | _ => cases horder
      · cases h
    · cases hd

/-! ## The state and those to go back to -/

/-- `P` holds of the account and of what is pending, now and in every state to which a failing message may go
back. -/
structure Everywhere (P : Storage → List Dispatched → Prop) (s : State) : Prop where
  now : P s.account s.pending
  saved : ∀ p ∈ s.saved, P p.1 p.2

theorem Everywhere.prepare {P : Storage → List Dispatched → Prop}
    (hP : ∀ a ds index, P a ds → P a (ds.eraseIdx index))
    (op : Op) (h : Everywhere P s) : Everywhere P (prepare s op) := by
  cases op with
  | call sender msg => exact h
  | carryOut index => exact ⟨hP _ _ index h.now, h.saved⟩
  | save =>
    refine ⟨h.now, ?_⟩
    intro p hp
    rcases List.mem_cons.mp hp with rfl | hp
    · exact h.now
    · exact h.saved p hp
  | rollback =>
    simp only [Account.prepare]
    split
    · exact h
    · rename_i account pending saved hcons
      refine ⟨h.saved (account, pending) (hcons ▸ mem_cons_self ..), ?_⟩
      intro p hp
      exact h.saved p (hcons ▸ mem_cons_of_mem _ hp)
  | release => exact ⟨h.now, fun p hp => h.saved p (mem_of_mem_tail hp)⟩

/-! ## Who can act -/

/-- A registered admin can act: a local one, or a remote one for which zkgm can speak. -/
def CanAct (a : Storage) : Prop := (∃ l, .localAdmin l ∈ a.admins) ∨
      ((∃ r, .remoteAdmin r ∈ a.admins) ∧ a.zkgm ≠ none)

/-- **The condition on removals.**  The last local admin stays while there is no address for zkgm. -/
def Keeps (env : Env) (s : State) (op : Op) : Prop :=
  ∀ i removedAdmin, incoming env s op = some i → Removes env s.account i removedAdmin →
    s.account.zkgm ≠ none ∨ ∃ l, .localAdmin l ∈ s.account.admins.erase removedAdmin

/-- No admin is removed while a message dispatched on its behalf is still to be carried out. -/
def Undisturbed (env : Env) (s : State) (op : Op) : Prop :=
  ∀ i removedAdmin, incoming env s op = some i → Removes env s.account i removedAdmin →
    ∀ d ∈ (prepare s op).pending, d.onBehalfOf ≠ removedAdmin

theorem canAct_of_left (hleft : a.admins ≠ ∅) (hzkgm : a.zkgm ≠ none) : CanAct a := by
  obtain ⟨x, hx⟩ := Finset.nonempty_iff_ne_empty.mpr hleft
  cases x with
  | localAdmin l => exact .inl ⟨l, hx⟩
  | remoteAdmin r => exact .inr ⟨⟨r, hx⟩, hzkgm⟩

theorem Accepted.canAct_iff (h : Accepted env a i.sender i.msg a' messages) (hact : CanAct a) :
    CanAct a' ↔ ∀ removedAdmin, Removes env a i removedAdmin →
      a.zkgm ≠ none ∨ ∃ l, .localAdmin l ∈ a.admins.erase removedAdmin := by
  by_cases hremoves : ∃ removedAdmin, Removes env a i removedAdmin
  · obtain ⟨removedAdmin, hmsg, hentitled, hleft⟩ := hremoves
    rcases i with ⟨sender, caller, msg⟩
    simp only at hmsg
    subst hmsg
    cases h with
    | removeAdmin _ _ =>
      constructor
      · rintro hafter removedAdmin' ⟨hsame, -, -⟩
        obtain rfl := ExecuteMsg.removeAdmin.inj hsame
        rcases hafter with hlocal | ⟨-, hzkgm⟩
        · exact .inr hlocal
        · exact .inl hzkgm
      · intro hkept
        rcases hkept removedAdmin ⟨rfl, hentitled, hleft⟩ with hzkgm | hlocal
        · exact canAct_of_left hleft hzkgm
        · exact .inl hlocal
  · constructor
    · intro _ removedAdmin hremoved
      exact absurd ⟨removedAdmin, hremoved⟩ hremoves
    · intro _
      rcases hact with ⟨l, hl⟩ | ⟨⟨r, hr⟩, hzkgm⟩
      · exact .inl ⟨l, h.mem hl fun hremoved => hremoves ⟨_, hremoved⟩⟩
      · exact .inr ⟨⟨r, h.mem hr fun hremoved => hremoves ⟨_, hremoved⟩⟩, h.zkgm hzkgm⟩

theorem prepare_canAct (op : Op) (h : Everywhere (fun a _ => CanAct a) s) :
    Everywhere (fun a _ => CanAct a) (prepare s op) := h.prepare (fun _ _ _ hact => hact) op

theorem step_saved (h : Everywhere (fun a _ => CanAct a) s) : ∀ p ∈ (step env s op).1.saved, CanAct p.1 := by
  rcases step_cases env s op with hstep | ⟨i, a, messages, -, -, hstep⟩
  · rw [hstep]
    exact (prepare_canAct op h).saved
  · rw [hstep]
    exact (prepare_canAct op h).saved

/-- **One step keeps someone who can act exactly under the condition.** -/
theorem step_canAct (h : Everywhere (fun a _ => CanAct a) s) : CanAct (step env s op).1.account ↔
      Keeps env s op := by
  unfold step
  cases hi : incoming env s op with
  | none =>
    constructor
    · intro _ i removedAdmin hsome
      rw [hi] at hsome
      cases hsome
    · intro _
      exact (prepare_canAct op h).now
  | some i =>
    obtain ⟨hacct, -⟩ := prepare_account hi
    have hkeeps : Keeps env s op ↔ ∀ removedAdmin, Removes env s.account i removedAdmin →
        s.account.zkgm ≠ none ∨ ∃ l, .localAdmin l ∈ s.account.admins.erase removedAdmin := by
      simp only [Keeps, hi, Option.some.injEq]
      constructor
      · intro h removedAdmin
        exact h i removedAdmin rfl
      · rintro h _ removedAdmin rfl
        exact h removedAdmin
    rw [hkeeps]
    simp only [handle, hacct]
    cases hexec : execute env s.account i.sender i.msg with
    | error e =>
      constructor
      · rintro - removedAdmin ⟨hmsg, hentitled, hleft⟩
        rw [hmsg, execute_removeAdmin hentitled hleft] at hexec
        cases hexec
      · intro _
        rw [hacct]
        exact h.now
    | ok r => exact (execute_eq_ok hexec).canAct_iff h.now

/-! ## On whose behalf -/

def Registered (a : Storage) (pending : List Dispatched) : Prop := ∀ d ∈ pending, d.onBehalfOf ∈ a.admins

def Ordered (past : List Event) (_ : Storage) (pending : List Dispatched) : Prop :=
  ∀ d ∈ pending, .ordered d.onBehalfOf ∈ past

theorem incoming_caller (h : incoming env s op = some i) :
    (i.sender ≠ env.contract ∧ i.caller = .localAdmin ⟨i.sender⟩) ∨
    (i.sender = env.contract ∧ ∃ d ∈ s.pending, d.onBehalfOf = i.caller) := by
  cases op with
  | call sender msg =>
    simp only [incoming] at h
    split at h
    · cases h
    · cases h
      exact .inl ⟨‹_›, rfl⟩
  | carryOut index =>
    simp only [incoming] at h
    split at h
    · rename_i contract msg caller hpending
      split at h
      · rename_i hself
        obtain ⟨m, -, rfl⟩ := Option.map_eq_some_iff.mp h
        exact .inr ⟨hself, _, mem_of_getElem? hpending, rfl⟩
      · cases h
    · cases h
  | _ => cases h

theorem onBehalfOf_dispatches {d : Dispatched} (h : d ∈ i.dispatches messages) :
    d.onBehalfOf = behalf i.caller i.msg := by
  obtain ⟨m, -, rfl⟩ := List.mem_map.mp h
  rfl

theorem dispatched_mem_events {d : Dispatched} : .dispatched d ∈ i.events env messages ↔
      d ∈ i.dispatches messages := by
  unfold Incoming.events
  constructor
  · intro h
    rcases List.mem_append.mp h with h | h
    · split at h
      · cases List.mem_singleton.mp h
      · cases h
    · obtain ⟨d', hd', heq⟩ := List.mem_map.mp h
      cases heq
      exact hd'
  · intro h
    exact mem_append_right _ (mem_map_of_mem h)

theorem Accepted.dispatches (h : Accepted env s.account i.sender i.msg a messages)
    (hi : incoming env s op = some i) {d : Dispatched} (hd : d ∈ i.dispatches messages) :
    a = s.account ∧ (i.isOrder env = true ∧ d.onBehalfOf = behalf i.caller i.msg ∧
      d.onBehalfOf ∈ s.account.admins ∨ ∃ d' ∈ s.pending, d'.onBehalfOf = d.onBehalfOf) := by
  have hbehalf := onBehalfOf_dispatches hd
  have hcaller := incoming_caller hi
  rcases i with ⟨sender, caller, msg⟩
  cases h with
  | dispatch hentitled =>
    refine ⟨rfl, ?_⟩
    rcases hcaller with ⟨hne, hlocal⟩ | ⟨-, d', hd', heq⟩
    · refine .inl ⟨by simpa [Incoming.isOrder] using hne, hbehalf, ?_⟩
      simp only at hlocal
      rw [hbehalf, hlocal]
      exact hentitled.resolve_left hne
    · exact .inr ⟨d', hd', heq.trans hbehalf.symm⟩
  | onZkgm _ hadmin => exact ⟨rfl, .inl ⟨rfl, hbehalf, hbehalf ▸ hadmin⟩⟩
  | setZkgm | addAdmin | removeAdmin => cases hd

theorem dispatched_registered (h : Registered s.account s.pending) {d : Dispatched}
    (hd : .dispatched d ∈ (step env s op).2) : d.onBehalfOf ∈ s.account.admins := by
  rcases step_cases env s op with hstep | ⟨i, a, messages, hi, hacc, hstep⟩
  · rw [hstep] at hd
    cases hd
  · rw [hstep] at hd
    rcases (hacc.dispatches hi (dispatched_mem_events.mp hd)).2 with ⟨-, -, hmem⟩ | ⟨d', hd', heq⟩
    · exact hmem
    · exact heq ▸ h d' hd'

theorem step_registered (h : Everywhere Registered s) (hop : Undisturbed env s op) :
    Everywhere Registered (step env s op).1 := by
  have hprepared := h.prepare (fun _ _ _ hds d hd => hds d (mem_of_mem_eraseIdx hd)) op
  rcases step_cases env s op with hstep | ⟨i, a, messages, hi, hacc, hstep⟩
  · rw [hstep]
    exact hprepared
  · obtain ⟨hacct, -⟩ := prepare_account hi
    rw [hstep]
    refine ⟨?_, hprepared.saved⟩
    intro d hd
    rcases List.mem_append.mp hd with hold | hnew
    · refine hacc.mem (hacct ▸ hprepared.now d hold) ?_
      intro hremoves
      exact hop i _ hi hremoves d hold rfl
    · obtain ⟨rfl, -⟩ := hacc.dispatches hi hnew
      have hevent : .dispatched d ∈ (step env s op).2 := by
        rw [hstep]
        exact dispatched_mem_events.mpr hnew
      exact dispatched_registered h.now hevent

theorem step_ordered {past : List Event} (h : Ordered past s.account s.pending) {d : Dispatched}
    (hd : .dispatched d ∈ (step env s op).2) : .ordered d.onBehalfOf ∈ past ++ (step env s op).2 := by
  rcases step_cases env s op with hstep | ⟨i, a, messages, hi, hacc, hstep⟩
  · rw [hstep] at hd
    cases hd
  · rw [hstep] at hd ⊢
    rcases (hacc.dispatches hi (dispatched_mem_events.mp hd)).2 with ⟨horder, hbehalf, -⟩ | ⟨d', hd', heq⟩
    · refine mem_append_right _ (mem_append_left _ ?_)
      rw [if_pos horder, hbehalf]
      exact mem_singleton_self _
    · exact mem_append_left _ (heq ▸ h d' hd')

theorem step_traced {past : List Event} (h : Everywhere (Ordered past) s) :
    Everywhere (Ordered (past ++ (step env s op).2)) (step env s op).1 := by
  have hprepared := h.prepare (fun _ _ _ hds d hd => hds d (mem_of_mem_eraseIdx hd)) op
  rcases step_cases env s op with hstep | ⟨i, a, messages, hi, hacc, hstep⟩
  · rw [hstep, append_nil]
    exact hprepared
  · refine ⟨?_, ?_⟩
    · intro d hd
      rw [hstep] at hd
      rcases List.mem_append.mp hd with hold | hnew
      · exact mem_append_left _ (hprepared.now d hold)
      · refine step_ordered h.now ?_
        rw [hstep]
        exact dispatched_mem_events.mpr hnew
    · intro p hp d hd
      rw [hstep] at hp
      exact mem_append_left _ (hprepared.saved p hp d hd)

theorem everywhere_start {P : Storage → List Dispatched → Prop} (msg : InitMsg) (h : P (init msg) []) :
    Everywhere P (start msg) := ⟨h, fun _ hp => absurd hp not_mem_nil⟩

theorem canAct_init (msg : InitMsg) : CanAct (init msg) := by
  cases msg with
  | zkgm zkgm path channelId sender => exact .inr ⟨⟨_, Finset.mem_singleton_self _⟩, Option.some_ne_none _⟩
  | localAdmin admin => exact .inl ⟨_, Finset.mem_singleton_self _⟩

theorem dispatched_ordered (env : Env) (msg : InitMsg) {past : List Op} {d : Dispatched}
    (hd : .dispatched d ∈ (step env (run (step env) (start msg) past) op).2) :
    ∃ before order after, past ++ [op] = before ++ order :: after ∧
      .ordered d.onBehalfOf ∈ (step env (run (step env) (start msg) before) order).2 ∧
      d.onBehalfOf ∈ (run (step env) (start msg) before).account.admins := by
  have htraced : Everywhere (Ordered (trace (step env) (start msg) past)) (run (step env) (start msg) past) :=
    invariant (I := fun s tr => Everywhere (Ordered tr) s) (fun _ _ _ hs => step_traced hs)
      (everywhere_start msg fun d hd => absurd hd not_mem_nil) past
  have hordered := step_ordered htraced.now hd
  have htrace : trace (step env) (start msg) (past ++ [op]) =
      trace (step env) (start msg) past ++ (step env (run (step env) (start msg) past) op).2 := by
    rw [trace_append]
    simp [trace]
  rw [← htrace] at hordered
  obtain ⟨before, order, after, hsplit, hmem⟩ := (mem_trace _ _).mp hordered
  exact ⟨before, order, after, hsplit, hmem, ordered_registered hmem⟩

/-- **The owners keep the account exactly in the runs that never remove the last local admin while there is no
address for zkgm; what is dispatched is on behalf of an admin, which is still registered if none is removed
under way.** -/
theorem owners_iff (env : Env) (msg : InitMsg) (ops : List Op) :
    ((∀ past rest, ops = past ++ rest → CanAct (run (step env) (start msg) past).account) ↔
      Meets (step env) (Keeps env) (start msg) ops) ∧
    (Meets (step env) (Undisturbed env) (start msg) ops →
      ∀ past op rest d, ops = past ++ op :: rest →
        .dispatched d ∈ (step env (run (step env) (start msg) past) op).2 →
        d.onBehalfOf ∈ (run (step env) (start msg) past).account.admins) ∧
    (∀ past op rest d, ops = past ++ op :: rest →
      .dispatched d ∈ (step env (run (step env) (start msg) past) op).2 →
      ∃ before order after, past ++ [op] = before ++ order :: after ∧
        .ordered d.onBehalfOf ∈ (step env (run (step env) (start msg) before) order).2 ∧
        d.onBehalfOf ∈ (run (step env) (start msg) before).account.admins) := by
  refine ⟨?_, ?_, fun past op rest d _ hd => dispatched_ordered env msg hd⟩
  · refine forall_states_iff (I := fun s => ∀ p ∈ s.saved, CanAct p.1) (G := fun s => CanAct s.account)
      (A := fun _ _ => True) ?_ ?_ ops (start msg) ?_ (canAct_init msg) (meets_of_forall _ fun _ _ => trivial)
    · intro s op hsaved _ hact
      exact step_saved ⟨hact, hsaved⟩
    · intro s op hsaved _ hact
      exact step_canAct ⟨hact, hsaved⟩
    · intro p hp
      cases hp
  · rintro hmeets past op rest d rfl hd
    have hregistered : Everywhere Registered (run (step env) (start msg) past) :=
      invariant_of_meets (I := fun s _ => Everywhere Registered s)
        (fun _ _ _ hs hop => step_registered hs hop)
        (everywhere_start msg fun d hd => absurd hd not_mem_nil) ((meets_append _ _ _).mp hmeets).1
    exact dispatched_registered hregistered.now hd

/-! ## An account that nobody can use -/

namespace Sample

def chain : Env := ⟨"account", fun _ => none, fun _ => none⟩

def remote : Admin := .remoteAdmin ⟨[1], 1, 0⟩

def handover : List Op :=
    [.call "alice" (.addAdmin remote), .call "alice" (.removeAdmin (.localAdmin ⟨"alice"⟩))]

end Sample

open Sample in
/-- **The guard on removals counts admins only**: what is left is a remote admin, and no address for zkgm. -/
theorem locked_out : ¬ ∀ past rest, handover = past ++ rest →
      CanAct (run (step chain) (start (.localAdmin "alice")) past).account := by
  intro h
  have hleft : (run (step chain) (start (.localAdmin "alice")) handover).account.admins =
      {remote} := by decide
  have hzkgm : (run (step chain) (start (.localAdmin "alice")) handover).account.zkgm = none := by
    decide
  rcases h handover [] (append_nil _).symm with ⟨l, hl⟩ | ⟨-, hset⟩
  · rw [hleft, Finset.mem_singleton] at hl
    cases hl
  · exact hset hzkgm

end UnionVoyager.Cw.Account
