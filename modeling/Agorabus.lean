import Agorabus.Library.Json
import Agorabus.Library.JsonText
import Agorabus.Library.JsonSerde
import Agorabus.Library.JsonSound
import Agorabus.Library.Lines
import Agorabus.Library.Utf8
import Agorabus.Library.Word
import Agorabus.Library.Table
import Agorabus.Library.StepSystem
import Agorabus.Library.Outbox
import Agorabus.Library.TempFile
import Agorabus.Library.Fanout
import Agorabus.Library.Unwinding
import Agorabus.Library.LeaseTable
import Agorabus.Library.Requests
import Agorabus.Protocol
import Agorabus.BusState
import Agorabus.Transaction
import Agorabus.ClaimTable
import Agorabus.Handler
import Agorabus.Daemon
import Agorabus.Steps
import Agorabus.Ownership
import Agorabus.Durability
import Agorabus.Journal
import Agorabus.Lease
import Agorabus.Intent
import Agorabus.Subscriber
import Agorabus.DrainNotice
import Agorabus.ClaimEvents
import Agorabus.ClaimLosses
import Agorabus.Interference
import Agorabus.Attribution
import Agorabus.Activity
import Agorabus.Relay
import Agorabus.FleetView
import Agorabus.Presence
import Agorabus.Visibility
import Agorabus.SocketFile
import Agorabus.Client
import Agorabus.Correlation
import Agorabus.Listener
import Agorabus.FleetQuery
import Agorabus.ClaimGuard
import Agorabus.Release
import Agorabus.Confirmation
import Agorabus.Renewal
import Agorabus.Reload
import Agorabus.ClaimWait
import Agorabus.Guests
import Agorabus.Registers
import Agorabus.IntentWrites
import Agorabus.Expired
import Agorabus.Similar
import Agorabus.Refusals
import Agorabus.Backoff
import Agorabus.InboundLine
import Agorabus.Reconnect
import Agorabus.Wire
import Agorabus.Demux
import Agorabus.FleetStore
import Agorabus.Granted
import Agorabus.Install
import Agorabus.ReloadFailure
import Agorabus.Doctor
import Agorabus.Accepted
import Agorabus.WireDaemon
import Agorabus.Queries
import Agorabus.JournalBytes
import Agorabus.RelaySafety
import Agorabus.LeaseService
import Agorabus.ShutdownProgress
import Agorabus.Resubscribe
import Agorabus.Commands
import Agorabus.CommandReports
import Agorabus.CommandWrites
