import Piconet.Main
import Piconet.Proofs.Capture.Transfer
import Piconet.Proofs.ChannelMap.Updates
import Piconet.Proofs.Coding.Detection
import Piconet.Proofs.Coding.LongDivision
import Piconet.Proofs.Coding.Sums
import Piconet.Proofs.Coding.Validity
import Piconet.Proofs.CommandLine.HopTable
import Piconet.Proofs.CommandLine.Limit
import Piconet.Proofs.CommandLine.Stopping
import Piconet.Proofs.Hop.Coverage
import Piconet.Proofs.Hop.Reversal
import Piconet.Proofs.Packing
import Piconet.Proofs.Radio.BoardTexts
import Piconet.Proofs.Radio.Refusal
import Piconet.Proofs.Radio.Sending
import Piconet.Proofs.Session.Acceptance
import Piconet.Proofs.Session.Counting
import Piconet.Proofs.Session.Instant
import Piconet.Proofs.Session.Payload
import Piconet.Proofs.Session.RadioMap
import Piconet.Proofs.Session.Rejection
import Piconet.Proofs.Session.WrittenMap
import Piconet.Proofs.SignalLevel
import Piconet.Proofs.Trim.Cancellation
import Piconet.Proofs.Trim.Drift
import Piconet.Proofs.Trim.History
import Piconet.Proofs.Trim.Persistence
import Piconet.Proofs.Whitening.Resumption
import Piconet.Proofs.Writing
import Piconet.Radio.Handle
import Piconet.Proofs.Radio.Pending
