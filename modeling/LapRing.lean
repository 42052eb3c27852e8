import LapRing.Script.Sequencing
import LapRing.Script.Messaging
import LapRing.Script.Publishing
import LapRing.Script.Hiring
import LapRing.Script.Traffic
import LapRing.Proofs.ChannelQueue
import LapRing.Proofs.PollHistory
import LapRing.Proofs.ProducerProgress
import LapRing.Proofs.WindowReleases
import LapRing.Proofs.EventRingArray
import LapRing.Proofs.OneFate
import LapRing.Proofs.BlockingChannel
import LapRing.Proofs.PendingClaims
import LapRing.Proofs.HandleAccounting
import LapRing.Proofs.WorkerResumption
import LapRing.Proofs.ClaimOverhang
import LapRing.Proofs.PollStages
import LapRing.Proofs.PollLoads
import LapRing.Proofs.LostConsumer
import LapRing.Proofs.Refusals
import LapRing.Proofs.MetricsAccount
import LapRing.Proofs.HandledWindows
import LapRing.Proofs.DeferredSends
import LapRing.Proofs.FlagHistory
import LapRing.Proofs.BlockingReceive
import LapRing.Proofs.PublicationRecords
import LapRing.Proofs.PaddedRows
import LapRing.Proofs.ProducerKinds
