import ClosedCaptions.Main
import ClosedCaptions.Proofs.Caption.Decoder
import ClosedCaptions.Proofs.Caption.Reaping
import ClosedCaptions.Proofs.Caption.Rows
import ClosedCaptions.Proofs.Decode.RealTime
import ClosedCaptions.Proofs.UserData.RoundTrip
import ClosedCaptions.Proofs.Caption.Typing
import ClosedCaptions.Proofs.Caption.Standing
import ClosedCaptions.Proofs.Caption.Packet
import ClosedCaptions.Proofs.Caption.Placing
import ClosedCaptions.Proofs.Caption.PopOn
import ClosedCaptions.Proofs.Caption.RollUp
import ClosedCaptions.Proofs.Caption.Alike
import ClosedCaptions.Proofs.Caption.Erasure
import ClosedCaptions.Proofs.Filter.SideData
import ClosedCaptions.Proofs.Stream.Coverage
import ClosedCaptions.Proofs.Filter.Sequence
import ClosedCaptions.Proofs.Filter.Filtering
import ClosedCaptions.Proofs.Filter.Request
import ClosedCaptions.Proofs.Filter.Removal
import ClosedCaptions.Proofs.Caption.Batch
import ClosedCaptions.Proofs.Caption.Repetition
import ClosedCaptions.Proofs.Decode.Captions
import ClosedCaptions.Proofs.Decode.Display
import ClosedCaptions.Proofs.Decode.Request
import ClosedCaptions.Proofs.Caption.Packing
import ClosedCaptions.Proofs.Caption.Writing
import ClosedCaptions.Proofs.Caption.DoubleBuffer
import ClosedCaptions.Proofs.Caption.ModeSelection
import ClosedCaptions.Proofs.Stream.Reencoding
import ClosedCaptions.Proofs.Layout.Engines
import ClosedCaptions.Proofs.UserData.SideData
import ClosedCaptions.Proofs.Strict.Quiet
import ClosedCaptions.Proofs.Strict.Tightening
import ClosedCaptions.Proofs.Strict.Captions
import ClosedCaptions.Proofs.Strict.Commands
import ClosedCaptions.Proofs.SubRip.Grammar
import ClosedCaptions.Proofs.SubRip.Entries
import ClosedCaptions.Proofs.Decode.Blocks
import ClosedCaptions.Proofs.Caption.Window
import ClosedCaptions.Proofs.Sequence.FrameRate
import ClosedCaptions.Proofs.Sequence.Codec
import ClosedCaptions.Proofs.Sequence.Writing
import ClosedCaptions.Proofs.Filter.Rewriting
import ClosedCaptions.Proofs.Filter.Recoding
import ClosedCaptions.Proofs.Layout.Stopping
import ClosedCaptions.Proofs.UserData.Room
import ClosedCaptions.Proofs.Filter.Extraction
import ClosedCaptions.Proofs.Caption.ReapedLines
import ClosedCaptions.Proofs.SubRip.Times
import ClosedCaptions.Proofs.Sequence.AspectRatio
import ClosedCaptions.Proofs.Layout.Calls
import ClosedCaptions.Proofs.Stream.Requests
import ClosedCaptions.Proofs.Info.Totals
