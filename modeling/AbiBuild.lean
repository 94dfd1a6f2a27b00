import AbiBuild.Main
import AbiBuild.Proofs.Tasks.Snapshots
import AbiBuild.Proofs.Build.Histories
import AbiBuild.Proofs.Build.Leftovers
import AbiBuild.Proofs.Build.Missing
import AbiBuild.Proofs.Build.Verdict
import AbiBuild.Proofs.Console.Entrances
import AbiBuild.Proofs.Config.Mistakes
import AbiBuild.Proofs.Files.Passage
import AbiBuild.Proofs.Placement.Obstacles
import AbiBuild.Proofs.Config.Loading
import AbiBuild.Proofs.Console.Reports
import AbiBuild.Proofs.Files.Resolving
import AbiBuild.Proofs.Build.Upkeep
import AbiBuild.Proofs.Console.Validity
import AbiBuild.Proofs.Tasks.Deliveries
import AbiBuild.Proofs.Tasks.Wirings
import AbiBuild.Proofs.Config.WrittenBack
import AbiBuild.Proofs.Ndk.Finding
import AbiBuild.Proofs.Ndk.Preference
import AbiBuild.Proofs.Console.FailureLines
import AbiBuild.Proofs.Tasks.Remnants
import AbiBuild.Proofs.Placement.Exactness
import AbiBuild.Proofs.Build.Standings
import AbiBuild.Proofs.Ndk.Newest
import AbiBuild.Proofs.Config.Targets
import AbiBuild.Proofs.Build.Libraries
import AbiBuild.Proofs.Ndk.Properties
import AbiBuild.Proofs.Build.Diagnostics
import AbiBuild.Proofs.Tasks.Agreement
