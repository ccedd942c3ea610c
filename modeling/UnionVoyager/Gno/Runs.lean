import UnionVoyager.Gno.Reading

/-!
# What the transactions run

A datagram asks for one call of the core realm with one message.  The plugin splices strings into
the program without escaping them.
-/

namespace UnionVoyager.Gno

open Lib.Go

/-! ## What is asked for -/

/-- The function of the core realm and the fields of its message. -/
structure Message where
  function : String
  fields : List (List Char × Value)

def Message.literal (m : Message) : Value := .struct (core ("Msg" ++ m.function)) m.fields

def channelValue (channel : Channel) (counterparty_channel_id : Nat) : Value :=
  .struct (core "Channel") [
    ("State".toList, .num channel.state.code),
    ("ConnectionId".toList, .num channel.connection_id),
    ("CounterpartyChannelId".toList, .num counterparty_channel_id),
    ("CounterpartyPortId".toList, bytesValue channel.counterparty_port_id),
    ("Version".toList, stringValue channel.version)]

def packetsValue (packets : List Packet) : Value := .slice (.named (core "Packet")) (packets.map packetValue)

def blobsValue (blobs : List (List UInt8)) : Value := .slice (.slice byte) (blobs.map bytesValue)

/-- The call a datagram asks for. -/
def Datagram.message : Datagram → Option Message
  | .createClient msg => some ⟨"CreateClient", [
      ("ClientType".toList, stringValue msg.client_type),
      ("ClientStateBytes".toList, bytesValue msg.client_state_bytes),
      ("ConsensusStateBytes".toList, bytesValue msg.consensus_state_bytes)]⟩
  | .updateClient msg => some ⟨"UpdateClient", [
      ("ClientId".toList, .num msg.client_id),
      ("ClientMessage".toList, bytesValue msg.client_message)]⟩
  | .connectionOpenInit msg => some ⟨"ConnectionOpenInit", [
      ("ClientId".toList, .num msg.client_id),
      ("CounterpartyClientId".toList, .num msg.counterparty_client_id)]⟩
  | .connectionOpenTry msg => some ⟨"ConnectionOpenTry", [
      ("ClientId".toList, .num msg.client_id),
      ("CounterpartyClientId".toList, .num msg.counterparty_client_id),
      ("CounterpartyConnectionId".toList, .num msg.counterparty_connection_id),
      ("ProofInit".toList, bytesValue msg.proof_init),
      ("ProofHeight".toList, .num msg.proof_height)]⟩
  | .connectionOpenAck msg => some ⟨"ConnectionOpenAck", [
      ("ConnectionId".toList, .num msg.connection_id),
      ("CounterpartyConnectionId".toList, .num msg.counterparty_connection_id),
      ("ProofTry".toList, bytesValue msg.proof_try),
      ("ProofHeight".toList, .num msg.proof_height)]⟩
  | .connectionOpenConfirm msg => some ⟨"ConnectionOpenConfirm", [
      ("ConnectionId".toList, .num msg.connection_id),
      ("ProofAck".toList, bytesValue msg.proof_ack),
      ("ProofHeight".toList, .num msg.proof_height)]⟩
  | .channelOpenInit msg => some ⟨"ChannelOpenInit", [
      ("PortId".toList, bytesValue msg.port_id),
      ("CounterpartyPortId".toList, bytesValue msg.counterparty_port_id),
      ("ConnectionId".toList, .num msg.connection_id),
      ("Version".toList, stringValue msg.version)]⟩
  | .channelOpenTry msg =>
    msg.channel.counterparty_channel_id.map fun counterparty_channel_id => ⟨"ChannelOpenTry", [
      ("PortId".toList, bytesValue msg.port_id),
      ("Channel".toList, channelValue msg.channel counterparty_channel_id),
      ("CounterpartyVersion".toList, stringValue msg.counterparty_version),
      ("ProofInit".toList, bytesValue msg.proof_init),
      ("ProofHeight".toList, .num msg.proof_height)]⟩
  | .channelOpenAck msg => some ⟨"ChannelOpenAck", [
      ("ChannelId".toList, .num msg.channel_id),
      ("CounterpartyVersion".toList, stringValue msg.counterparty_version),
      ("CounterpartyChannelId".toList, .num msg.counterparty_channel_id),
      ("ProofTry".toList, bytesValue msg.proof_try),
      ("ProofHeight".toList, .num msg.proof_height)]⟩
  | .channelOpenConfirm msg => some ⟨"ChannelOpenConfirm", [
      ("ChannelId".toList, .num msg.channel_id),
      ("ProofAck".toList, bytesValue msg.proof_ack),
      ("ProofHeight".toList, .num msg.proof_height)]⟩
  | .packetRecv msg => some ⟨"PacketRecv", [
      ("Packets".toList, packetsValue msg.packets),
      ("RelayerMsgs".toList, blobsValue msg.relayer_msgs),
      ("Proof".toList, bytesValue msg.proof),
      ("ProofHeight".toList, .num msg.proof_height)]⟩
  | .packetAcknowledgement msg => some ⟨"PacketAcknowledgement", [
      ("Packets".toList, packetsValue msg.packets),
      ("Acknowledgements".toList, blobsValue msg.acknowledgements),
      ("Proof".toList, bytesValue msg.proof),
      ("ProofHeight".toList, .num msg.proof_height)]⟩
  | .packetTimeout msg => some ⟨"PacketTimeout", [
      ("Packet".toList, packetValue msg.packet),
      ("Proof".toList, bytesValue msg.proof),
      ("ProofHeight".toList, .num msg.proof_height)]⟩
  | _ => none

def Datagram.strings : Datagram → List String
  | .createClient msg => [msg.client_type]
  | .channelOpenInit msg => [msg.version]
  | .channelOpenTry msg => [msg.channel.version, msg.counterparty_version]
  | .channelOpenAck msg => [msg.counterparty_version]
  | _ => []

/-- The text is a program that only has a main function, which makes the call of the datagram, with
a struct literal for its message, and at most prints what the call returns. -/
def Runs (ibc_core_realm : String) (d : Datagram) (text : String) : Prop :=
  ∃ message literal result?, d.message = some message ∧ literal.denote conversion = some message.literal ∧
    lex text = some (mainProgram ibc_core_realm (mainBody result? (coreCall message.function literal))).tokens

def Spliced (ibc_core_realm : String) (d : Datagram) : Prop := ∀ s ∈ ibc_core_realm :: d.strings,
    Plain s.toList

instance (ibc_core_realm : String) (d : Datagram) : Decidable (Spliced ibc_core_realm d) :=
  inferInstanceAs (Decidable (∀ s ∈ ibc_core_realm :: d.strings, Plain s.toList))

/-! ## The template of a datagram -/

variable {relayer : Bech32} {d : Datagram} {t : Template}

theorem template_message (h : template relayer d = .ok t) :
    d.message = some ⟨t.function, t.lines.flatMap Line.denoted⟩ ∧
      t.strings = d.strings.map String.toList := by
  cases d with
  | channelOpenTry msg =>
    simp only [template] at h
    split at h
    · rename_i id hid
      cases h
      exact ⟨by rw [Datagram.message, hid]; rfl, rfl⟩
    · cases h
  | _ =>
    cases h
    try exact ⟨rfl, rfl⟩

theorem strings_mainProgram (ibc_core_realm function : String) (result? : Option (List Char))
    (literal : Expr) :
    strings (mainProgram ibc_core_realm (mainBody result? (coreCall function literal))).tokens =
      utf8 ibc_core_realm.toList :: strings literal.tokens := by
  have hkeyword : ∀ (word : List Char) (ts : List Token),
    strings (.keyword word :: ts) = strings ts := fun _ _ => rfl
  have hdefine : ∀ ts : List Token, strings (.define :: ts) = strings ts := fun _ => rfl
  cases result? <;>
    simp [mainProgram, mainBody, coreCall, Program.tokens, Import.tokens, Func.tokens, Stmt.tokens,
      Expr.tokens, Args.tokens, Name.strings_tokens, hkeyword, hdefine]

variable {ibc_core_realm : String}

theorem Runs.strings_eq {text : String} (h : Runs ibc_core_realm d text) (ht : template relayer d = .ok t) :
    ∃ out, lex text = some out ∧ strings out = (ibc_core_realm.toList :: t.strings).map utf8 := by
  obtain ⟨message, literal, result?, hmessage, hdenote, hlex⟩ := h
  obtain ⟨hsame, -⟩ := template_message ht
  have hvalue : message.literal = t.denoted := by
    rw [Option.some.inj (hmessage.symm.trans hsame)]
    rfl
  have hliteral : strings literal.tokens = strings t.literal.tokens := by
    rw [Expr.strings_of_denote hdenote, Expr.strings_of_denote t.denote_literal, hvalue]
  refine ⟨_, hlex, ?_⟩
  rw [strings_mainProgram, hliteral, ← (reads_render ibc_core_realm t).denotes, Template.program,
    strings_mainProgram]

theorem runs_iff_plain (ibc_core_realm : String) (ht : template relayer d = .ok t) :
    Runs ibc_core_realm d (t.render ibc_core_realm) ↔ Spliced ibc_core_realm d := by
  obtain ⟨hmessage, hstrings⟩ := template_message ht
  have hreads := reads_render ibc_core_realm t
  have hspliced : Spliced ibc_core_realm d ↔ ∀ s ∈ ibc_core_realm.toList :: t.strings, Plain s := by
    rw [hstrings, ← List.map_cons, List.forall_mem_map]
    rfl
  rw [hspliced]
  constructor
  · intro hruns
    obtain ⟨out, hlex, hout⟩ := hruns.strings_eq ht
    refine hreads.plain [] out [] ?_ ?_
    · rw [List.append_nil]
      exact hlex
    · rw [List.append_nil]
      exact hout
  · intro hplain
    exact ⟨_, t.literal, t.result?.map String.toList, hmessage, t.denote_literal,
      lexFrom_eq_some (hreads.lexes hplain)⟩

/-! ## One text, one datagram -/

theorem core_injective {name name' : String} (h : core name = core name') : name = name' := by
  rw [core, core, Name.mk.injEq] at h
  exact String.toList_inj.mp h.2

theorem Runs.message_eq {ibc_core_realm' text : String} {d' : Datagram}
    (h : Runs ibc_core_realm d text) (h' : Runs ibc_core_realm' d' text) :
    ibc_core_realm = ibc_core_realm' ∧ d.message = d'.message ∧ d.message.isSome := by
  obtain ⟨message, literal, result?, hmessage, hdenote, hlex⟩ := h
  obtain ⟨message', literal', result?', hmessage', hdenote', hlex'⟩ := h'
  have hprogram := Program.tokens_injective (Option.some.inj (hlex.symm.trans hlex'))
  simp only [mainProgram, Program.mk.injEq, List.cons.injEq, Import.mk.injEq, Func.mk.injEq, true_and,
    and_true] at hprogram
  obtain ⟨hrealm, hbody⟩ := hprogram
  have hcall : coreCall message.function literal = coreCall message'.function literal' := by
    cases result? <;> cases result?' <;> simp_all [mainBody]
  simp only [coreCall, Expr.call.injEq, Args.cons.injEq, Args.last.injEq, true_and] at hcall
  obtain ⟨hfunction, rfl⟩ := hcall
  have hvalue := Option.some.inj (hdenote.symm.trans hdenote')
  simp only [Message.literal, Value.struct.injEq] at hvalue
  have hsame : message = message' := by
    obtain ⟨function, fields⟩ := message
    obtain ⟨function', fields'⟩ := message'
    rw [Message.mk.injEq]
    exact ⟨core_injective hfunction, hvalue.2⟩
  refine ⟨String.toList_inj.mp (utf8_injective hrealm), ?_, ?_⟩
  · rw [hmessage, hmessage', hsame]
  · rw [hmessage]
    rfl

@[simp] theorem stringValue_inj {s s' : String} : stringValue s = stringValue s' ↔ s = s' := by
  constructor
  · intro h
    rw [stringValue, stringValue, Value.str.injEq] at h
    exact String.toList_inj.mp (utf8_injective h)
  · rintro rfl
    rfl

theorem map_injective {α : Type} {f : α → Value} (hf : ∀ {a a'}, f a = f a' → a = a')
    {as as' : List α} (h : as.map f = as'.map f) : as = as' :=
  List.map_injective_iff.mpr (fun _ _ => hf) h

@[simp] theorem bytesValue_inj {bz bz' : List UInt8} : bytesValue bz = bytesValue bz' ↔ bz = bz' := by
  constructor
  · intro h
    rw [bytesValue, bytesValue, Value.slice.injEq] at h
    refine map_injective ?_ h.2
    intro b b' hb
    exact UInt8.toNat_inj.mp (Value.num.inj hb)
  · rintro rfl
    rfl

@[simp] theorem packetValue_inj {packet packet' : Packet} :
    packetValue packet = packetValue packet' ↔ packet = packet' := by
  obtain ⟨source, dest, data, stamp⟩ := packet
  obtain ⟨source', dest', data', stamp'⟩ := packet'
  simp [packetValue]

@[simp] theorem packetsValue_inj {ps ps' : List Packet} : packetsValue ps = packetsValue ps' ↔ ps = ps' := by
  constructor
  · intro h
    rw [packetsValue, packetsValue, Value.slice.injEq] at h
    exact map_injective packetValue_inj.mp h.2
  · rintro rfl
    rfl

@[simp] theorem blobsValue_inj {bzs bzs' : List (List UInt8)} : blobsValue bzs = blobsValue bzs' ↔
      bzs = bzs' := by
  constructor
  · intro h
    rw [blobsValue, blobsValue, Value.slice.injEq] at h
    exact map_injective bytesValue_inj.mp h.2
  · rintro rfl
    rfl

theorem ChannelState.code_inj {state state' : ChannelState} : state.code = state'.code ↔ state = state' := by
  cases state <;> cases state' <;> decide

theorem channelOpenTry_inj {msg msg' : MsgChannelOpenTry}
    (h : (Datagram.channelOpenTry msg).message = (Datagram.channelOpenTry msg').message)
    (hsome : (Datagram.channelOpenTry msg).message.isSome) : msg = msg' := by
  obtain ⟨port, ⟨state, connection, channel?, cport, version⟩, cversion, proof, height⟩ := msg
  obtain ⟨port', ⟨state', connection', channel?', cport', version'⟩, cversion', proof', height'⟩ := msg'
  cases channel? with
  | none => cases hsome
  | some channel =>
    cases channel?' with
    | none => cases h
    | some channel' =>
      simpa [Datagram.message, channelValue, ChannelState.code_inj, and_assoc] using h

/-- The kinds of datagram with a message. -/
def functions : List String :=
  ["CreateClient", "UpdateClient", "ConnectionOpenInit", "ConnectionOpenTry", "ConnectionOpenAck",
    "ConnectionOpenConfirm",
    "ChannelOpenInit", "ChannelOpenTry", "ChannelOpenAck", "ChannelOpenConfirm", "PacketRecv",
      "PacketAcknowledgement",
    "PacketTimeout"]

def Datagram.kind : Datagram → Nat
  | .createClient _ => 0
  | .updateClient _ => 1
  | .connectionOpenInit _ => 2
  | .connectionOpenTry _ => 3
  | .connectionOpenAck _ => 4
  | .connectionOpenConfirm _ => 5
  | .channelOpenInit _ => 6
  | .channelOpenTry _ => 7
  | .channelOpenAck _ => 8
  | .channelOpenConfirm _ => 9
  | .packetRecv _ => 10
  | .packetAcknowledgement _ => 11
  | .packetTimeout _ => 12
  | _ => 13

theorem Datagram.function_kind {m : Message} (h : d.message = some m) :
    functions[d.kind]? = some m.function := by
  cases d with
  | channelOpenTry msg =>
    obtain ⟨id, -, rfl⟩ := Option.map_eq_some_iff.mp h
    rfl
  | _ =>
    cases h
    try rfl

theorem Datagram.message_injective {d' : Datagram} (h : d.message = d'.message)
    (hsome : d.message.isSome) : d = d' := by
  have hnodup : functions.Nodup := by decide
  obtain ⟨m, hm⟩ := Option.isSome_iff_exists.mp hsome
  have hfunction := function_kind hm
  have hlt : d.kind < functions.length := (List.getElem?_eq_some_iff.mp hfunction).1
  have hkind : d.kind = d'.kind :=
    (List.getElem?_inj hlt hnodup).mp (hfunction.trans (function_kind (h.symm.trans hm)).symm)
  cases d <;> cases d' <;> try (cases hkind; done)
  case channelOpenTry.channelOpenTry => exact congrArg _ (channelOpenTry_inj h hsome)
  all_goals try (cases hsome; done)
  all_goals
    rename_i msg msg'
    cases msg
    cases msg'
    simpa [Datagram.message] using h

/-! ## Transactions -/

theorem process_msg_eq_ok {signer : Bech32} {fee_recipient : Option Bech32} {msg : Datagram}
    {result : Datagram × MsgRun} (h : process_msg signer ibc_core_realm fee_recipient msg = .ok result) :
    ∃ t, template (fee_recipient.getD signer) msg = .ok t ∧
      result = (msg, msgRun signer (t.render ibc_core_realm)) := by
  unfold process_msg at h
  split at h
  · rename_i t ht
    cases h
    exact ⟨t, ht, rfl⟩
  · cases h
  · cases h

theorem mem_process_msgs {signer : Bech32} {fee_recipient : Option Bech32} {msgs : List Datagram}
    {results : List (Except String (Datagram × MsgRun))} {result : Datagram × MsgRun}
    (h : process_msgs signer ibc_core_realm fee_recipient msgs = .ok results)
      (hresult : .ok result ∈ results) :
    ∃ msg ∈ msgs, process_msg signer ibc_core_realm fee_recipient msg = .ok result := by
  induction msgs generalizing results with
  | nil =>
    cases h
    cases hresult
  | cons msg msgs ih =>
    rw [process_msgs] at h
    split at h
    · cases h
    · split at h
      · rename_i rest hrest
        cases h
        rcases List.mem_cons.mp hresult with hhead | htail
        · cases hhead
        · obtain ⟨msg', hmem, hmsg⟩ := ih hrest htail
          exact ⟨msg', List.mem_cons_of_mem msg hmem, hmsg⟩
      · rename_i hstop
        exact absurd h (hstop results)
    · rename_i first hfirst
      split at h
      · rename_i rest hrest
        cases h
        rcases List.mem_cons.mp hresult with hhead | htail
        · cases hhead
          exact ⟨msg, List.mem_cons_self, hfirst⟩
        · obtain ⟨msg', hmem, hmsg⟩ := ih hrest htail
          exact ⟨msg', List.mem_cons_of_mem msg hmem, hmsg⟩
      · rename_i hstop
        exact absurd h (hstop results)

/-- **A transaction runs its datagram exactly when what is spliced into the program is plain**, and
no other datagram of which this is true has the same program. -/
theorem transaction_runs_iff {signer : Bech32} {ibc_core_realm : String} {fee_recipient : Option Bech32}
    {msgs : List Datagram} {results : List (Except String (Datagram × MsgRun))} {d : Datagram} {run : MsgRun}
    (h : process_msgs signer ibc_core_realm fee_recipient msgs = .ok results)
      (hrun : .ok (d, run) ∈ results) :
    ∃ body, run = msgRun signer body ∧ (Runs ibc_core_realm d body ↔ Spliced ibc_core_realm d) ∧
      (Spliced ibc_core_realm d → ∀ signer' ibc_core_realm' fee_recipient' d', Spliced ibc_core_realm' d' →
        process_msg signer' ibc_core_realm' fee_recipient' d' = .ok (d', msgRun signer' body) →
        ibc_core_realm' = ibc_core_realm ∧ d' = d) := by
  obtain ⟨msg, -, hmsg⟩ := mem_process_msgs h hrun
  obtain ⟨t, ht, hresult⟩ := process_msg_eq_ok hmsg
  cases hresult
  have hruns := runs_iff_plain ibc_core_realm ht
  refine ⟨t.render ibc_core_realm, rfl, hruns, ?_⟩
  intro hplain signer' ibc_core_realm' fee_recipient' d' hplain' hmsg'
  obtain ⟨t', ht', hresult'⟩ := process_msg_eq_ok hmsg'
  have hbody : t.render ibc_core_realm = t'.render ibc_core_realm' := by
    simp only [msgRun, Prod.mk.injEq, true_and, MsgRun.mk.injEq, MemPackage.mk.injEq,
      List.cons.injEq, MemFile.mk.injEq, and_true] at hresult'
    exact hresult'
  have hruns' := (runs_iff_plain ibc_core_realm' ht').mpr hplain'
  rw [← hbody] at hruns'
  obtain ⟨hrealm, hmessage, hsome⟩ := (hruns.mpr hplain).message_eq hruns'
  exact ⟨hrealm.symm, (Datagram.message_injective hmessage hsome).symm⟩

namespace Sample

def signer : Bech32 := ⟨"g1relayer", by simp⟩

def realm : String := "gno.land/r/core"

def created (client_type : String) : Datagram := .createClient ⟨client_type, [1, 255], []⟩

/-- A client type that ends the message and makes another call. -/
def injected : String :=
  "a\"\x7d)\n\tcore.Evil(cross)\n\t" ++ "core.CreateClient(cross, core.MsgCreateClient\x7b" ++
    "ClientType: \"b"

/-- The program for such a client type. -/
def injectedProgram : Program :=
  mainProgram realm [
    .define "id".toList (coreCall "CreateClient"
      (.struct (core "MsgCreateClient") (.last "ClientType".toList (.str (utf8 "a".toList))))),
    .expr (.call (core "Evil") (.last (.name ⟨none, "cross".toList⟩))),
    .expr (coreCall "CreateClient" (.struct (core "MsgCreateClient")
      (.cons "ClientType".toList (.str (utf8 "b".toList))
      (.cons "ClientStateBytes".toList (bytesExpr [1, 255])
      (.cons "ConsensusStateBytes".toList (bytesExpr []) .nil))))),
    .expr (.call ⟨none, "println".toList⟩ (.last (.name ⟨none, "id".toList⟩)))]

end Sample

theorem Template.toList_render (ibc_core_realm : String) (t : Template) : (t.render ibc_core_realm).toList =
      "\npackage main\n\nimport (\n    core \"".toList ++ ibc_core_realm.toList ++
        "\"\n)\n\nfunc main() \x7b\n\t".toList ++ t.define.toList ++ "core.".toList ++ t.function.toList ++
        "(cross, core.Msg".toList ++ t.function.toList ++ "\x7b\n".toList ++
        (t.lines.map Line.render).flatMap String.toList ++ "\t\x7d)\n".toList ++ t.print.toList ++
        "\x7d\n                    ".toList := by
  unfold render
  simp only [String.toList_append, String.toList_join]

open Sample in
theorem transaction_runs_plain : ∃ body, process_msgs signer realm none [created "cometbls"] =
      .ok [.ok (created "cometbls", msgRun signer body)] ∧ Runs realm (created "cometbls") body := by
  have hrun : process_msgs signer realm none [created "cometbls"] =
        .ok [.ok (created "cometbls", msgRun signer
        ((createClient signer ⟨"cometbls", [1, 255], []⟩).render realm))] := rfl
  obtain ⟨body, hbody, hiff, -⟩ := transaction_runs_iff hrun List.mem_cons_self
  rw [hbody] at hrun
  have hrealm : Plain "gno.land/r/core".toList := by simp [Plain, refused]
  have htype : Plain "cometbls".toList := by simp [Plain, refused]
  have hspliced : Spliced realm (created "cometbls") :=
    List.forall_mem_cons.mpr ⟨hrealm, List.forall_mem_singleton.mpr htype⟩
  exact ⟨body, hrun, hiff.mpr hspliced⟩

open Sample in
/-- The program for this datagram makes two calls more than it should, one of them of another function. -/
theorem injected_not_run : ∃ body,
    process_msgs signer realm none [created injected] = .ok [.ok (created injected, msgRun signer body)] ∧
    lex body = some injectedProgram.tokens ∧ ¬ Runs realm (created injected) body := by
  have hlex : lex ((createClient signer ⟨injected, [1, 255], []⟩).render realm) =
      some injectedProgram.tokens := by
    rw [lex, Template.toList_render]
    decide +kernel
  refine ⟨_, rfl, hlex, ?_⟩
  rintro ⟨message, literal, result?, -, -, hruns⟩
  have hprogram := Program.tokens_injective (Option.some.inj (hlex.symm.trans hruns))
  have hlen := congrArg (fun p : Program => p.funcs.map fun f => f.body.length) hprogram
  cases result? <;> simp [injectedProgram, mainProgram, mainBody] at hlen

end UnionVoyager.Gno
