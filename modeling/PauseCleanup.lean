import PauseCleanup.Crew.Shift
import PauseCleanup.Rehearsal.Play
import PauseCleanup.Unloading.Chain
import PauseCleanup.Proofs.Frontier.Batches
import PauseCleanup.Proofs.Frontier.UsedUp
import PauseCleanup.Proofs.Pass.Life
import PauseCleanup.Proofs.Pass.Once
import PauseCleanup.Proofs.Unloading.Verified
import PauseCleanup.Proofs.Pool.Course
import PauseCleanup.Proofs.Unloading.Hand
import PauseCleanup.Proofs.Unloading.Containment
import PauseCleanup.Proofs.Tally
import PauseCleanup.Proofs.TallyEntries
import PauseCleanup.Proofs.Pass.Calm
import PauseCleanup.Proofs.Pass.Metrics
import PauseCleanup.Proofs.Crew.Stage
import PauseCleanup.Proofs.Crew.Turn
import PauseCleanup.Proofs.Crew.Attendance
import PauseCleanup.Proofs.Crew.PassedOn
import PauseCleanup.Proofs.Descents
import PauseCleanup.Proofs.Crew.Ends
import PauseCleanup.Proofs.Pass.CalmClosing
import PauseCleanup.Proofs.Pool.Restrict
import PauseCleanup.Proofs.Pass.Crew
import PauseCleanup.Proofs.Pass.Order
import PauseCleanup.Proofs.Pass.Counted
import PauseCleanup.Proofs.Pass.Missed
import PauseCleanup.Proofs.Process.Overlap
import PauseCleanup.Proofs.Ledger.Recording
import PauseCleanup.Proofs.ClassCleaning.Once
import PauseCleanup.Proofs.Unloading.Lone
import PauseCleanup.Proofs.Unloading.Races
import PauseCleanup.Proofs.Dispenser.Polling
import PauseCleanup.Proofs.MetadataRelease.Once
import PauseCleanup.Proofs.OneShot.OneWinner
