import UnionVoyager.Core.Lifecycle
import UnionVoyager.Net.Delivery
import UnionVoyager.Zkgm.Maker
import UnionVoyager.Zkgm.Unwrap
import UnionVoyager.Light.GnoSound
import UnionVoyager.Light.CometBlsSound
import UnionVoyager.Light.Agreement
import UnionVoyager.Sui.Helpers
import UnionVoyager.Sui.Truth
import UnionVoyager.Light.AttestedSafety
import UnionVoyager.Light.ProofLens
import UnionVoyager.Light.ParliaSound
import UnionVoyager.Light.Frozen
import UnionVoyager.Light.StarknetSound
import UnionVoyager.Ics23.SoliditySound
import UnionVoyager.Ics23.MoveSound
import UnionVoyager.Lst.Bounds
import UnionVoyager.Lst.Payout
import UnionVoyager.Lst.Pool
import UnionVoyager.Lst.Submit
import UnionVoyager.Lst.Value
import UnionVoyager.Lst.Withdrawals
import UnionVoyager.Light.SuiSound
import UnionVoyager.Evm.Vesting
import UnionVoyager.Evm.CrosschainVault
import UnionVoyager.Cw.Account
import UnionVoyager.Cw.WrappedTokenfactory
import UnionVoyager.Cw.EscrowVaults
import UnionVoyager.Depolama.Range
import UnionVoyager.Core.Batch
import UnionVoyager.Core.BatchAcks
import UnionVoyager.Vm.Bookkeeping
import UnionVoyager.Keyring.ConcurrentKeyring
import UnionVoyager.Vm.Sequencing
import UnionVoyager.Vm.Completeness
import UnionVoyager.Vm.Voided
import UnionVoyager.Gno.Runs
import UnionVoyager.Zkgm.Reconfigure
import UnionVoyager.Zkgm.Route
import UnionVoyager.Zkgm.Migration
import UnionVoyager.Zkgm.Inverse
import UnionVoyager.Zkgm.MakerAck
import UnionVoyager.AccessManager.Caused
import UnionVoyager.Plugin.TransactionBatch
import UnionVoyager.Light.ParliaEpochs
import UnionVoyager.Core.Keys
import UnionVoyager.Plugin.Transaction
import UnionVoyager.Plugin.EventSource
