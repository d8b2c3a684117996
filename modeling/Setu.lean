import Setu.Consensus.Agreement
import Setu.Consensus.Bookkeeping
import Setu.Consensus.Clock
import Setu.Consensus.FoldPolicy
import Setu.Consensus.GarbageCollection
import Setu.Consensus.TeeVerifier
import Setu.Enclave.InputHash
import Setu.Enclave.Isolation
import Setu.Enclave.WriteBack
import Setu.Framework.Supply
import Setu.Governance.Decisions
import Setu.Move.AllOrNothing
import Setu.Move.FieldEffects
import Setu.Move.Linearity
import Setu.Runtime.OwnershipIndex
import Setu.State.OwnerIndex
import Setu.State.Skipped
import Setu.State.VersionWatcher
import Setu.Storage.AnchorStore
import Setu.Validator.ByValue
import Setu.Validator.FreshTransfer
import Setu.Validator.Frozen
import Setu.Validator.ModuleKeys
import Setu.Validator.Rounds
