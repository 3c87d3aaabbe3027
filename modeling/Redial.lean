import Redial.Session
import Redial.Delay.Sample
import Redial.Event.LogLine
import Redial.Delivery.Monitor
import Redial.Handle.Shared
import Redial.Fanout.Pipeline
import Redial.Proofs.DisposalBound
import Redial.Proofs.CourseLogic
import Redial.Proofs.EventGrammar
import Redial.Proofs.ExchangeSteps
import Redial.Proofs.DriverAgreement
import Redial.Proofs.Acts
import Redial.Proofs.AttemptCount
import Redial.Proofs.UserCode
import Redial.Proofs.NestedRuns
import Redial.Proofs.ReferenceRun
import Redial.Proofs.RunsAsRaces
import Redial.Proofs.SettledSessions
import Redial.Proofs.LossyOutboxes
import Redial.Proofs.SharedOutboxes
import Redial.Proofs.Wakeups
import Redial.Proofs.Allowances
import Redial.Proofs.CallLives
import Redial.Proofs.MixedRuns
import Redial.Proofs.SuccessiveRaces
import Redial.Proofs.OneRun
import Redial.Proofs.SharedHandles
import Redial.Proofs.Scenes
import Redial.Proofs.OrderlyScenes
import Redial.Proofs.RunEnds
import Redial.Proofs.Releases
import Redial.Proofs.Deliveries
import Redial.Proofs.Alarms
import Redial.Proofs.Erasures
import Redial.Proofs.ErasedSessions
import Redial.Proofs.PlainScenes
import Redial.Proofs.DeliverySettings
import Redial.Proofs.SilentSessions
import Redial.Proofs.HubSteps
import Redial.Proofs.FanoutAccounts
import Redial.Proofs.RelayAccounts
import Redial.Proofs.Histories
import Redial.Proofs.LoneCalls
import Redial.Proofs.Pauses
import Redial.Proofs.Bystanders
import Redial.Proofs.CallSimulation
import Redial.Proofs.NonInterference
import Redial.Proofs.DoubleRounding
import Redial.Proofs.ImmediateDelays
import Redial.Proofs.Watches
import Redial.Proofs.Settlements
import Redial.Proofs.Consultations
import Redial.Proofs.BudgetAccounts
import Redial.Proofs.Publications
import Redial.Proofs.Chronicles
import Redial.Proofs.Readers
import Redial.Proofs.EventNumbers
import Redial.Proofs.NearestDoubles
import Redial.Proofs.RereadDurations
import Redial.Proofs.CappedDelays
import Redial.Proofs.Timetables
import Redial.Proofs.Spellings
import Redial.Proofs.ReadableText
import Redial.Proofs.LogLines
import Redial.Proofs.Signatures
import Redial.Proofs.Choices
import Redial.Proofs.PanicCauses
import Redial.Proofs.SlicedPauses
import Redial.Proofs.ScheduledRetries
