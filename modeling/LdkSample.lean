import LdkSample.Machine.Logged
import LdkSample.Payment.StoreFile
import LdkSample.Payment.InFlight
import LdkSample.Payment.OutboundStatus
import LdkSample.Payment.OutboundRefused
import LdkSample.Payment.InboundAmount
import LdkSample.Startup.Tip
import LdkSample.Startup.Identity
import LdkSample.Startup.Reconcile
import LdkSample.Args.Sources
import LdkSample.Bitcoind.FeeOrder
import LdkSample.Bitcoind.Unspent
import LdkSample.Bitcoind.SignPsbt
import LdkSample.Cli.PeerInfo
import LdkSample.Cli.OpenChannel
import LdkSample.Cli.Rejected
import LdkSample.Cli.Amounts
import LdkSample.Cli.Close
import LdkSample.Cli.Session
import LdkSample.Node.Reconnect
import LdkSample.Node.StopDial
import LdkSample.Node.Shutdown
import LdkSample.Sweep.Restart
import LdkSample.Sweep.ReadBack
import LdkSample.Machine.Lives
import LdkSample.Machine.Host
import LdkSample.Machine.Front
import LdkSample.Machine.Observed
import LdkSample.Payment.InboundDisk
import LdkSample.Payment.OutboundKept
import LdkSample.Lives.Node
import LdkSample.Lives.Sent
import LdkSample.Lives.Claimed
import LdkSample.Lives.Causes
import LdkSample.Numeric.Binary
import LdkSample.Numeric.Decimal
import LdkSample.Bitcoind.Doubles
import LdkSample.Bitcoind.Convert
import LdkSample.Bitcoind.Amounts
import LdkSample.Bitcoind.Funding
import LdkSample.Bitcoind.Coins
import LdkSample.Lives.InFlight
import LdkSample.Lives.Program
import LdkSample.Events.Handler
import LdkSample.Events.Calls
import LdkSample.Events.Stored
import LdkSample.Cli.Invoices
import LdkSample.Cli.Listing
