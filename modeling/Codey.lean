import Codey.Durable.Settling
import Codey.Durable.Barrier
import Codey.Durable.EditRuns
import Codey.Durable.Workflows
import Codey.Durable.Fencing
import Codey.Durable.ContextBudget
import Codey.Durable.Idempotency
import Codey.Durable.Waiting
import Codey.Durable.OwnedWork
import Codey.Durable.Integrity
import Codey.Providers.ProbeClaims
import Codey.Providers.StreamLaws
import Codey.Toolchain.ToolArgsStable
import Codey.Completion.ChangesSeen
import Codey.Runtime.RecoveryDecision
import Codey.Knowledge.RecallAgreement
import Codey.Operations.KernelReceipts
import Codey.Operations.TurnPlans
import Codey.Codemode.ExactRecovery
import Codey.Events.NoSilentLoss
import Codey.Ghost.PrivacySwitches
import Codey.Ghost.DeletionRuns
import Codey.Control.Delegation
import Codey.Policies.Grants
import Codey.Protocols.TextTurn
import Codey.Runtime.OutputCapture
import Codey.Toolchain.ReadFile
import Codey.Workspace.Fingerprint
import Codey.Providers.LedgerRuns
import Codey.Providers.OriginalSource
import Codey.Workspace.SnapshotRuns
import Codey.Workspace.ChangeRoundTrip
import Codey.Providers.RequestRoundTrip
import Codey.Providers.SupervisorRuns
import Codey.Storage.HeadAndTail
import Codey.Agents.FailoverRuns
import Codey.Runtime.MutationGroups
import Codey.Runs.CheckpointRuns
import Codey.Ghost.HebbianReplay
import Codey.Repairs.OverrideRuns
