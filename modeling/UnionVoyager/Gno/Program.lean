import UnionVoyager.Lib.GoTokens

/-!
# The Go programs of the gno transaction plugin

gno takes a transaction as the text of a Go program.  For each datagram the plugin writes the
program that calls the function of the core realm for it, with the fields of the datagram as a
struct literal.

* `template` — the template of each kind of datagram; the kinds without one are refused or not implemented.
-/

namespace UnionVoyager.Gno

open Lib.Go

/-! ## Datagrams -/

inductive ChannelState where
  | init
  | tryOpen
  | open
  | closed
  deriving DecidableEq

def ChannelState.code : ChannelState → Nat
  | init => 1
  | tryOpen => 2
  | .open => 3
  | closed => 4

structure Channel where
  state : ChannelState
  connection_id : Nat
  counterparty_channel_id : Option Nat
  counterparty_port_id : List UInt8
  version : String

/-- The timeout height of a packet is always zero and left out. -/
structure Packet where
  source_channel_id : Nat
  destination_channel_id : Nat
  data : List UInt8
  timeout_timestamp : Nat

structure MsgCreateClient where
  client_type : String
  client_state_bytes : List UInt8
  consensus_state_bytes : List UInt8

structure MsgUpdateClient where
  client_id : Nat
  client_message : List UInt8

structure MsgConnectionOpenInit where
  client_id : Nat
  counterparty_client_id : Nat

structure MsgConnectionOpenTry where
  client_id : Nat
  counterparty_client_id : Nat
  counterparty_connection_id : Nat
  proof_init : List UInt8
  proof_height : Nat

structure MsgConnectionOpenAck where
  connection_id : Nat
  counterparty_connection_id : Nat
  proof_try : List UInt8
  proof_height : Nat

structure MsgConnectionOpenConfirm where
  connection_id : Nat
  proof_ack : List UInt8
  proof_height : Nat

structure MsgChannelOpenInit where
  port_id : List UInt8
  counterparty_port_id : List UInt8
  connection_id : Nat
  version : String

structure MsgChannelOpenTry where
  port_id : List UInt8
  channel : Channel
  counterparty_version : String
  proof_init : List UInt8
  proof_height : Nat

structure MsgChannelOpenAck where
  channel_id : Nat
  counterparty_version : String
  counterparty_channel_id : Nat
  proof_try : List UInt8
  proof_height : Nat

structure MsgChannelOpenConfirm where
  channel_id : Nat
  proof_ack : List UInt8
  proof_height : Nat

structure MsgPacketRecv where
  packets : List Packet
  relayer_msgs : List (List UInt8)
  proof : List UInt8
  proof_height : Nat

structure MsgPacketAcknowledgement where
  packets : List Packet
  acknowledgements : List (List UInt8)
  proof : List UInt8
  proof_height : Nat

structure MsgPacketTimeout where
  packet : Packet
  proof : List UInt8
  proof_height : Nat

/-- The kinds for which no program is written come without their fields. -/
inductive Datagram where
  | createClient (msg : MsgCreateClient)
  | updateClient (msg : MsgUpdateClient)
  | connectionOpenInit (msg : MsgConnectionOpenInit)
  | connectionOpenTry (msg : MsgConnectionOpenTry)
  | connectionOpenAck (msg : MsgConnectionOpenAck)
  | connectionOpenConfirm (msg : MsgConnectionOpenConfirm)
  | channelOpenInit (msg : MsgChannelOpenInit)
  | channelOpenTry (msg : MsgChannelOpenTry)
  | channelOpenAck (msg : MsgChannelOpenAck)
  | channelOpenConfirm (msg : MsgChannelOpenConfirm)
  | channelCloseInit
  | channelCloseConfirm
  | packetRecv (msg : MsgPacketRecv)
  | packetAcknowledgement (msg : MsgPacketAcknowledgement)
  | packetTimeout (msg : MsgPacketTimeout)
  | intentPacketRecv
  | batchSend
  | batchAcks
  | commitMembershipProof
  | commitNonMembershipProof
  | commitPacketTimeout

/-! ## Texts -/

/-- An address in bech32: printable characters of ASCII only. -/
structure Bech32 where
  text : String
  printable : ∀ c ∈ text.toList, '!' ≤ c ∧ c ≤ '~'

def gno_bytes (bz : List UInt8) : String := "[]byte\x7b" ++ String.join
    (bz.map fun b => toString b.toNat ++ ", ") ++ "\x7d"

def gno_packet (packet : Packet) : String :=
  "core.Packet\x7b SourceChannelId: core.ChannelId(" ++ toString packet.source_channel_id ++
    "), DestinationChannelId: core.ChannelId(" ++ toString packet.destination_channel_id ++ "), Data: " ++
    gno_bytes packet.data ++ ", TimeoutHeight: core.Height(0), TimeoutTimestamp: core.Timestamp(" ++
    toString packet.timeout_timestamp ++ ") \x7d"

/-- The types of the core realm that numbers are converted to. -/
inductive Conversion where
  | clientId
  | connectionId
  | channelId
  | height
  | timestamp

def Conversion.text : Conversion → String
  | clientId => "ClientId"
  | connectionId => "ConnectionId"
  | channelId => "ChannelId"
  | height => "Height"
  | timestamp => "Timestamp"

/-- What stands at a field, strings apart. -/
inductive Splice where
  | num (n : Nat)
  | conv (type : Conversion) (n : Nat)
  | bytes (bz : List UInt8)
  | blobs (blobs : List (List UInt8))
  | packets (packets : List Packet)

def Splice.render : Splice → String
  | num n => toString n
  | conv type n => "core." ++ type.text ++ "(" ++ toString n ++ ")"
  | bytes bz => gno_bytes bz
  | blobs bzs => "[][]byte\x7b " ++ ",".intercalate (bzs.map gno_bytes) ++ " \x7d"
  | packets ps => "[]core.Packet\x7b " ++ ",".intercalate (ps.map gno_packet) ++ " \x7d"

/-- A field of a struct literal; a string is put between quotes as it is. -/
inductive Field where
  | value (key : String) (v : Splice)
  | text (key s : String)

def Field.render (indent : String) : Field → String
  | value key v => indent ++ key ++ ": " ++ v.render ++ ",\n"
  | text key s => indent ++ key ++ ": \"" ++ s ++ "\",\n"

inductive Line where
  | field (f : Field)
  | nested (key type : String) (fields : List Field)
  | comment (label : String) (line : isComment label.toList = true) (relayer : Bech32)

def Line.render : Line → String
  | field f => f.render "    \t"
  | nested key type fields =>
    "    \t" ++ key ++ ": core." ++ type ++ "\x7b\n" ++
      String.join (fields.map (Field.render "        \t")) ++ "    \t\x7d,\n"
  | comment label _ relayer => "    \t//" ++ label ++ relayer.text ++ ",\n"

def Field.names : Field → List String
  | value key _ => [key]
  | text key _ => [key]

def Line.names : Line → List String
  | field f => f.names
  | nested key type fields => key :: type :: fields.flatMap Field.names
  | comment _ _ _ => []

/-- A call of a function of the core realm with the message of the same name.  `result?`: what is
returned gets a name and is printed. -/
structure Template where
  result? : Option String
  function : String
  lines : List Line
  named : (result?.toList ++ function :: lines.flatMap Line.names).all (fun name => isName name.toList) = true

def Template.define (t : Template) : String :=
  match t.result? with
  | some name => name ++ " := "
  | none => ""

def Template.print (t : Template) : String :=
  match t.result? with
  | some name => "\tprintln(" ++ name ++ ")\n"
  | none => ""

def Template.render (ibc_core_realm : String) (t : Template) : String :=
  "\npackage main\n\nimport (\n    core \"" ++ ibc_core_realm ++ "\"\n)\n\nfunc main() \x7b\n\t" ++
    t.define ++ "core." ++
    t.function ++ "(cross, core.Msg" ++ t.function ++ "\x7b\n" ++ String.join (t.lines.map Line.render) ++
    "\t\x7d)\n" ++ t.print ++ "\x7d\n                    "

/-! ## The templates -/

def num (key : String) (n : Nat) : Line := .field (.value key (.num n))

def conv (key : String) (type : Conversion) (n : Nat) : Line := .field (.value key (.conv type n))

def bytes (key : String) (bz : List UInt8) : Line := .field (.value key (.bytes bz))

def text (key s : String) : Line := .field (.text key s)

def createClient (relayer : Bech32) (msg : MsgCreateClient) : Template where
  result? := some "id"
  function := "CreateClient"
  lines := [
    text "ClientType" msg.client_type,
    bytes "ClientStateBytes" msg.client_state_bytes,
    bytes "ConsensusStateBytes" msg.consensus_state_bytes,
    .comment " Relayer: = " rfl relayer]
  named := rfl

def updateClient (relayer : Bech32) (msg : MsgUpdateClient) : Template where
  result? := some "height"
  function := "UpdateClient"
  lines := [
    conv "ClientId" .clientId msg.client_id,
    bytes "ClientMessage" msg.client_message,
    .comment " Relayer: " rfl relayer]
  named := rfl

def connectionOpenInit (msg : MsgConnectionOpenInit) : Template where
  result? := some "height"
  function := "ConnectionOpenInit"
  lines := [
    conv "ClientId" .clientId msg.client_id,
    conv "CounterpartyClientId" .clientId msg.counterparty_client_id]
  named := rfl

def connectionOpenTry (msg : MsgConnectionOpenTry) : Template where
  result? := none
  function := "ConnectionOpenTry"
  lines := [
    conv "ClientId" .clientId msg.client_id,
    conv "CounterpartyClientId" .clientId msg.counterparty_client_id,
    conv "CounterpartyConnectionId" .connectionId msg.counterparty_connection_id,
    bytes "ProofInit" msg.proof_init,
    conv "ProofHeight" .height msg.proof_height]
  named := rfl

def connectionOpenAck (msg : MsgConnectionOpenAck) : Template where
  result? := none
  function := "ConnectionOpenAck"
  lines := [
    conv "ConnectionId" .connectionId msg.connection_id,
    conv "CounterpartyConnectionId" .connectionId msg.counterparty_connection_id,
    bytes "ProofTry" msg.proof_try,
    conv "ProofHeight" .height msg.proof_height]
  named := rfl

def connectionOpenConfirm (msg : MsgConnectionOpenConfirm) : Template where
  result? := none
  function := "ConnectionOpenConfirm"
  lines := [
    conv "ConnectionId" .connectionId msg.connection_id,
    bytes "ProofAck" msg.proof_ack,
    conv "ProofHeight" .height msg.proof_height]
  named := rfl

def channelOpenInit (msg : MsgChannelOpenInit) : Template where
  result? := none
  function := "ChannelOpenInit"
  lines := [
    bytes "PortId" msg.port_id,
    bytes "CounterpartyPortId" msg.counterparty_port_id,
    num "ConnectionId" msg.connection_id,
    text "Version" msg.version]
  named := rfl

def channelOpenTry (msg : MsgChannelOpenTry) (counterparty_channel_id : Nat) : Template where
  result? := none
  function := "ChannelOpenTry"
  lines := [
    bytes "PortId" msg.port_id,
    .nested "Channel" "Channel" [
      .value "State" (.num msg.channel.state.code),
      .value "ConnectionId" (.conv .connectionId msg.channel.connection_id),
      .value "CounterpartyChannelId" (.conv .channelId counterparty_channel_id),
      .value "CounterpartyPortId" (.bytes msg.channel.counterparty_port_id),
      .text "Version" msg.channel.version],
    text "CounterpartyVersion" msg.counterparty_version,
    bytes "ProofInit" msg.proof_init,
    num "ProofHeight" msg.proof_height]
  named := rfl

def channelOpenAck (msg : MsgChannelOpenAck) : Template where
  result? := none
  function := "ChannelOpenAck"
  lines := [
    conv "ChannelId" .channelId msg.channel_id,
    text "CounterpartyVersion" msg.counterparty_version,
    conv "CounterpartyChannelId" .channelId msg.counterparty_channel_id,
    bytes "ProofTry" msg.proof_try,
    num "ProofHeight" msg.proof_height]
  named := rfl

def channelOpenConfirm (msg : MsgChannelOpenConfirm) : Template where
  result? := none
  function := "ChannelOpenConfirm"
  lines := [
    conv "ChannelId" .channelId msg.channel_id,
    bytes "ProofAck" msg.proof_ack,
    num "ProofHeight" msg.proof_height]
  named := rfl

def packetRecv (msg : MsgPacketRecv) : Template where
  result? := none
  function := "PacketRecv"
  lines := [
    .field (.value "Packets" (.packets msg.packets)),
    .field (.value "RelayerMsgs" (.blobs msg.relayer_msgs)),
    bytes "Proof" msg.proof,
    num "ProofHeight" msg.proof_height]
  named := rfl

def packetAcknowledgement (msg : MsgPacketAcknowledgement) : Template where
  result? := none
  function := "PacketAcknowledgement"
  lines := [
    .field (.value "Packets" (.packets msg.packets)),
    .field (.value "Acknowledgements" (.blobs msg.acknowledgements)),
    bytes "Proof" msg.proof,
    num "ProofHeight" msg.proof_height]
  named := rfl

def packetTimeout (msg : MsgPacketTimeout) : Template where
  result? := none
  function := "PacketTimeout"
  lines := [
    .nested "Packet" "Packet" [
      .value "SourceChannelId" (.conv .channelId msg.packet.source_channel_id),
      .value "DestinationChannelId" (.conv .channelId msg.packet.destination_channel_id),
      .value "Data" (.bytes msg.packet.data),
      .value "TimeoutHeight" (.num 0),
      .value "TimeoutTimestamp" (.conv .timestamp msg.packet.timeout_timestamp)],
    bytes "Proof" msg.proof,
    num "ProofHeight" msg.proof_height]
  named := rfl

/-- What comes of a datagram; `panic` where the code stops. -/
inductive Outcome (α : Type) where
  | ok (a : α)
  | err (message : String)
  | panic (message : String)

def template (relayer : Bech32) : Datagram → Outcome Template
  | .createClient msg => .ok (createClient relayer msg)
  | .updateClient msg => .ok (updateClient relayer msg)
  | .connectionOpenInit msg => .ok (connectionOpenInit msg)
  | .connectionOpenTry msg => .ok (connectionOpenTry msg)
  | .connectionOpenAck msg => .ok (connectionOpenAck msg)
  | .connectionOpenConfirm msg => .ok (connectionOpenConfirm msg)
  | .channelOpenInit msg => .ok (channelOpenInit msg)
  | .channelOpenTry msg =>
    match msg.channel.counterparty_channel_id with
    | some counterparty_channel_id => .ok (channelOpenTry msg counterparty_channel_id)
    | none => .panic "must be present"
  | .channelOpenAck msg => .ok (channelOpenAck msg)
  | .channelOpenConfirm msg => .ok (channelOpenConfirm msg)
  | .channelCloseInit => .panic "not yet implemented"
  | .channelCloseConfirm => .panic "not yet implemented"
  | .packetRecv msg => .ok (packetRecv msg)
  | .packetAcknowledgement msg => .ok (packetAcknowledgement msg)
  | .packetTimeout msg => .ok (packetTimeout msg)
  | .intentPacketRecv => .panic "not yet implemented"
  | .batchSend => .panic "not yet implemented"
  | .batchAcks => .panic "not yet implemented"
  | .commitMembershipProof => .err "CommitMembershipProof is not supported on gno"
  | .commitNonMembershipProof => .err "CommitNonMembershipProof is not supported on gno"
  | .commitPacketTimeout => .err "CommitPacketTimeout is not supported on gno"

/-! ## Transactions -/

structure MemFile where
  name : String
  body : String

structure MemPackage where
  name : String
  path : String
  files : List MemFile

structure MsgRun where
  caller : String
  send : String
  max_deposit : String
  package : MemPackage

/-- The transaction that runs a program. -/
def msgRun (signer : Bech32) (body : String) : MsgRun where
  caller := signer.text
  send := ""
  max_deposit := ""
  package := { name := "main", path := "", files := [{ name := "main.gno", body }] }

def process_msg (signer : Bech32) (ibc_core_realm : String) (fee_recipient : Option Bech32)
    (msg : Datagram) : Outcome (Datagram × MsgRun) :=
  match template (fee_recipient.getD signer) msg with
  | .ok t => .ok (msg, msgRun signer (t.render ibc_core_realm))
  | .err message => .err message
  | .panic message => .panic message

/-- Each datagram has its own result, unless one of them makes the code stop. -/
def process_msgs (signer : Bech32) (ibc_core_realm : String) (fee_recipient : Option Bech32) :
    List Datagram → Outcome (List (Except String (Datagram × MsgRun)))
  | [] => .ok []
  | msg :: msgs =>
    match process_msg signer ibc_core_realm fee_recipient msg with
    | .panic message => .panic message
    | .err e =>
      match process_msgs signer ibc_core_realm fee_recipient msgs with
      | .ok results => .ok (.error e :: results)
      | stopped => stopped
    | .ok result =>
      match process_msgs signer ibc_core_realm fee_recipient msgs with
      | .ok results => .ok (.ok result :: results)
      | stopped => stopped

end UnionVoyager.Gno
