import QueueRace.Script
import QueueRace.Handover
import QueueRace.Jitter
import QueueRace.Config
import QueueRace.Report.Verify
import QueueRace.CommandLine.Usage
import QueueRace.StopToken.Script
import QueueRace.Race.Schedule
import QueueRace.Report.Summary
import QueueRace.Log.Filter
import QueueRace.Worker.Script
import QueueRace.Main
import QueueRace.Proofs.Interleaving.Shape
import QueueRace.Proofs.Interleaving.Retirement
import QueueRace.Proofs.Interleaving.Progress
import QueueRace.Proofs.Interleaving.Linearization
import QueueRace.Proofs.Interleaving.Solo
import QueueRace.Proofs.Report.Count
import QueueRace.Proofs.Race.Timeout
import QueueRace.Proofs.Race.Signal
import QueueRace.Proofs.Race.Pauses
import QueueRace.Proofs.Program
import QueueRace.Proofs.Script.Deeds
import QueueRace.Proofs.Script.Lag
import QueueRace.Proofs.Script.Sources
import QueueRace.Proofs.Script.Transfer
import QueueRace.Proofs.StopToken.Heeding
import QueueRace.Proofs.Worker.Produce
import QueueRace.Proofs.Worker.Consume
import QueueRace.Proofs.StopToken.Clones
