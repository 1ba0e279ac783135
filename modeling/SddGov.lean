import SddGov.Broker.PowerLoss
import SddGov.Governance.Exclusion
import SddGov.Governance.Failure
import SddGov.Governance.Lifecycle
import SddGov.Autonomy.AgentBroker
import SddGov.Autonomy.DecisionStore
import SddGov.Autonomy.Questions
import SddGov.Autonomy.Recorded
import SddGov.CiGuard.DraftGuard
import SddGov.CiGuard.Verify
import SddGov.FsSecurity.RemoveOwned
import SddGov.Evidence.Transaction
import SddGov.MergeGate.Contract
import SddGov.MergeGate.Paths
import SddGov.Installer.Blocks
import SddGov.TrustedRunner.OperationId
import SddGov.TrustedRunner.Bundle
import SddGov.TrustedRunner.ChildResult
import SddGov.TrustedRunner.Honest
import SddGov.Evidence.Agree
import SddGov.Evidence.Handled
import SddGov.Redaction.Stream
import SddGov.Broker.AcceptLoop
import SddGov.Containment.SyntheticScope
import SddGov.Autonomy.Framing
import SddGov.Owner.SshAgent
import SddGov.Owner.VenvConfig
import SddGov.Owner.OwnerCard
import SddGov.Governance.EventLog
import SddGov.MergeGate.SignedReview
import SddGov.FsSecurity.FileSetSnapshot
import SddGov.Release.Bundle
import SddGov.Release.Assets
