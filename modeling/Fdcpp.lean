import Fdcpp.Lib.Prog
import Fdcpp.Descriptor.Ownership
import Fdcpp.Lib.Bytes
import Fdcpp.Lib.Run
import Fdcpp.Lib.Feed
import Fdcpp.Lib.Stride
import Fdcpp.Lib.Fifo
import Fdcpp.Lib.SizeT
import Fdcpp.Lib.Ledger
import Fdcpp.Lib.Periodic
import Fdcpp.Lib.Table
import Fdcpp.Util.Throw
import Fdcpp.Timers.Agreement
import Fdcpp.Timers.Transparency
import Fdcpp.Buffered.Socket
import Fdcpp.Buffered.Spec
import Fdcpp.Buffered.Codec
import Fdcpp.Buffered.Session
import Fdcpp.Buffered.Output
import Fdcpp.Buffered.Invariant
import Fdcpp.Buffered.Text
import Fdcpp.Buffered.Link
import Fdcpp.Buffered.Halves
import Fdcpp.Buffered.Reader
import Fdcpp.Buffered.Strings
import Fdcpp.Buffered.Decoding
import Fdcpp.Buffered.Retry
import Fdcpp.Buffered.Secrecy
import Fdcpp.Lib.Twin
import Fdcpp.Fdpass.Transfer
import Fdcpp.Fdpass.RoundTrip
import Fdcpp.Fdpass.Adoption
import Fdcpp.Fdpass.Senders
import Fdcpp.Fdpass.Custody
import Fdcpp.Fdpass.Delivery
import Fdcpp.Unix.Address
import Fdcpp.Records.Loop
import Fdcpp.Records.Complete
import Fdcpp.Inotify.Events
import Fdcpp.Inotify.Watches
import Fdcpp.Timers.Timeouts
import Fdcpp.Buffered.Objects
import Fdcpp.Buffered.Moves
import Fdcpp.Lib.Fair
import Fdcpp.Buffered.Progress
import Fdcpp.Buffered.Economy
import Fdcpp.Mapping.Mmap
import Fdcpp.Mapping.Ownership
import Fdcpp.Lib.Shared
import Fdcpp.Records.Eventfd
import Fdcpp.Records.Signalfd
import Fdcpp.Epoll.Events
import Fdcpp.Epoll.Registry
import Fdcpp.Unix.Rendezvous
import Fdcpp.Inet.Factories
import Fdcpp.Inet.Network
import Fdcpp.Descriptor.Kinds
import Fdcpp.Timers.Stopwatch
