import Nethadone.KeyedTable
import Nethadone.CappedTable
import Nethadone.Sweep
import Nethadone.Numeral
import Nethadone.Models
import Nethadone.Database
import Nethadone.SimpleLoadAvg
import Nethadone.Ladder
import Nethadone.Qdisc
import Nethadone.Skb
import Nethadone.Throttle
import Nethadone.ClassHandles
import Nethadone.Trace
import Nethadone.LadderLevels
import Nethadone.Interference
import Nethadone.Backoff
import Nethadone.Release
import Nethadone.Collect
import Nethadone.Exactness
import Nethadone.Run
import Nethadone.Daemon
import Nethadone.Freshness
import Nethadone.Bandwidth
import Nethadone.Membership
import Nethadone.Metrics
import Nethadone.Counting
import Nethadone.Rungs
import Nethadone.FailedReads
import Nethadone.TrafficMon
import Nethadone.DnsAnswers
import Nethadone.SplicedAddresses
import Nethadone.Exposition
import Nethadone.Labels
import Nethadone.RuleOrder
import Nethadone.Reattach
import Nethadone.Sniffer
import Nethadone.Capture
import Nethadone.Wildcard
import Nethadone.Globs
import Nethadone.Statistics
import Nethadone.Leaves
import Nethadone.Passes
import Nethadone.TrafficCount
import Nethadone.Acceptance
import Nethadone.Residue
import Nethadone.DnsHistory
import Nethadone.LetterCase
import Nethadone.System
import Nethadone.TornReads
import Nethadone.LostUpdates
import Nethadone.TrafficCpus
import Nethadone.Workers
import Nethadone.Host
import Nethadone.Requests
import Nethadone.Reapply
import Nethadone.Startup
import Nethadone.Lifetime
import Nethadone.Destinations
import Nethadone.Outcomes
import Nethadone.ReachableTables
import Nethadone.Steady
import Nethadone.Sustained
import Nethadone.Pollers
