import StackKeeper.Attempt.Id
import StackKeeper.Main
import StackKeeper.Proofs.Attempt.CallOrder
import StackKeeper.Proofs.Keeper.Consistency
import StackKeeper.Proofs.Keeper.Deployment
import StackKeeper.Proofs.Keeper.Cancellation
import StackKeeper.Proofs.Rehearsal.Crew
import StackKeeper.Proofs.Stack.FileStore
import StackKeeper.Proofs.Source.Concealment
import StackKeeper.Proofs.Dict
import StackKeeper.Proofs.Stack.Precedence
import StackKeeper.Proofs.Attempt.Configuration
import StackKeeper.Proofs.Attempt.Commit
import StackKeeper.Proofs.Lookup.Environment
import StackKeeper.Proofs.Stack.Concurrency
import StackKeeper.Proofs.Reference
import StackKeeper.Proofs.Stack.RoundTrip
import StackKeeper.Proofs.Rehearsal.Waiting
import StackKeeper.Proofs.Stack.Acceptance
import StackKeeper.Proofs.Stack.Overrides
import StackKeeper.Proofs.Engine.Diagnosis
import StackKeeper.Proofs.Engine.Session
import StackKeeper.Proofs.Console.Report
import StackKeeper.Proofs.Rehearsal.Passage
import StackKeeper.Proofs.Source.Login
import StackKeeper.Proofs.Source.Preparation
import StackKeeper.Proofs.Source.CommandLine
import StackKeeper.Proofs.Source.Refusal
import StackKeeper.Proofs.Credentials
import StackKeeper.Proofs.Credentials.Spelling
import StackKeeper.Proofs.Cluster.SecretKey
import StackKeeper.Proofs.Engine.Signals
import StackKeeper.Proofs.Engine.LastLink
import StackKeeper.Proofs.Engine.Arguments
import StackKeeper.Proofs.Revision
import StackKeeper.Proofs.Settings.Agreement
import StackKeeper.Proofs.Source.ShownUrl
import StackKeeper.Proofs.Stack.Inventory
import StackKeeper.Proofs.Source.ProjectDirectory
