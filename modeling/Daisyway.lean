import Daisyway.Lib.Run
import Daisyway.Lib.Reach
import Daisyway.Lib.Machine
import Daisyway.Lib.Lists
import Daisyway.Lib.Maps
import Daisyway.Lib.Stream
import Daisyway.Lib.Search
import Daisyway.Lib.Hex
import Daisyway.Lib.Base64
import Daisyway.Lib.HashChain
import Daisyway.Lib.Keccak
import Daisyway.Prim
import Daisyway.Etsi014
import Daisyway.Tls
import Daisyway.Util.ReadExt
import Daisyway.Util.Keys
import Daisyway.Setup
import Daisyway.Crypto.Hash
import Daisyway.Crypto.Basics
import Daisyway.Crypto.Chain
import Daisyway.Crypto.Forks
import Daisyway.Crypto.Kdf
import Daisyway.Crypto.Protocol
import Daisyway.Crypto.Lockstep
import Daisyway.Crypto.Mismatch
import Daisyway.Osk.Deadman
import Daisyway.Osk.Shutdown
import Daisyway.Osk.Trace
import Daisyway.Osk.Outfile
import Daisyway.Osk.WireGuard
import Daisyway.Net.Manager
import Daisyway.Net.Forwarding
import Daisyway.Net.Handles
import Daisyway.Net.Server
import Daisyway.Net.Zombies
import Daisyway.Net.Isolation
import Daisyway.Net.Delivery
import Daisyway.Net.Stragglers
import Daisyway.Net.Links
import Daisyway.Net.System
import Daisyway.Net.EndToEnd
import Daisyway.Net.Completeness
import Daisyway.Net.Provenance
import Daisyway.Net.Aborts
import Daisyway.Net.Deployment
import Daisyway.Net.Answers
import Daisyway.Net.Convergence
import Daisyway.Net.Brokers
import Daisyway.Net.Outfiles
import Daisyway.Net.WireGuard
import Daisyway.Net.Recovery
import Daisyway.Net.Availability
import Daisyway.Net.Takeover
import Daisyway.Net.Trust
import Daisyway.Net.Rekeying
import Daisyway.Net.Clocks
import Daisyway.Simulator.Requests
import Daisyway.Simulator.Consistency
import Daisyway.Simulator.Testbed
