import GrantLedger.SortedMap.Lemmas
import GrantLedger.Main
import GrantLedger.Node
import GrantLedger.Proofs.Codec
import GrantLedger.Proofs.GrantKey
import GrantLedger.Proofs.AddressText
import GrantLedger.Proofs.BufferStack
import GrantLedger.Proofs.Execution
import GrantLedger.Proofs.Branch
import GrantLedger.Proofs.GrantRecord
import GrantLedger.Proofs.Keeper
import GrantLedger.Proofs.Listing
import GrantLedger.Proofs.Accounting
import GrantLedger.Proofs.Delegation
import GrantLedger.Proofs.Ledger
import GrantLedger.Proofs.Absence
import GrantLedger.Proofs.Canonical
import GrantLedger.Proofs.AuthzOnly
import GrantLedger.Proofs.Readback
import GrantLedger.Proofs.Lives
import GrantLedger.Proofs.Lifecycle
import GrantLedger.Proofs.MerkleRoot
import GrantLedger.Proofs.GenesisRoundtrip
import GrantLedger.Proofs.Encodings
import GrantLedger.Proofs.Resumption
import GrantLedger.Proofs.Inquiries
import GrantLedger.Proofs.Pages
import GrantLedger.Proofs.HttpPages
import GrantLedger.Proofs.JsonText
import GrantLedger.Proofs.Walks
import GrantLedger.Proofs.KeyLayout
import GrantLedger.Proofs.PageReads
import GrantLedger.Proofs.WriteBack
import GrantLedger.Proofs.Lookups
import GrantLedger.Proofs.Uses
import GrantLedger.Proofs.Finality
import GrantLedger.Proofs.SweepExact
import GrantLedger.Proofs.Batches
import GrantLedger.Proofs.Commuting
import GrantLedger.Proofs.Narrative
import GrantLedger.Proofs.Validation
import GrantLedger.Proofs.GenesisImport
import GrantLedger.Proofs.MergeScan
import GrantLedger.Proofs.SingleGrants
