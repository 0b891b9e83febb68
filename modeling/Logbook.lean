import Logbook.Registry.Flush
import Logbook.Proofs.Buffer.Arguments
import Logbook.Proofs.Buffer.Blocks
import Logbook.Proofs.Buffer.Bounds
import Logbook.Proofs.Buffer.Cursor
import Logbook.Proofs.Buffer.Dropping
import Logbook.Proofs.Buffer.Expansion
import Logbook.Proofs.Buffer.Looks
import Logbook.Proofs.Buffer.Pool
import Logbook.Proofs.Buffer.Reserve
import Logbook.Proofs.Buffer.Retained
import Logbook.Proofs.Buffer.Slots
import Logbook.Proofs.Emission.Callback
import Logbook.Proofs.Emission.Feed
import Logbook.Proofs.Emission.Frames
import Logbook.Proofs.Emission.Place
import Logbook.Proofs.Emission.Printer
import Logbook.Proofs.Emission.Reader
import Logbook.Proofs.Emission.Recovery
import Logbook.Proofs.Emission.Session
import Logbook.Proofs.Emission.Sink
import Logbook.Proofs.Format.Beside
import Logbook.Proofs.Format.Compile
import Logbook.Proofs.Format.Fill
import Logbook.Proofs.Format.Grammar
import Logbook.Proofs.Format.Spans
import Logbook.Proofs.Layout.Cycles
import Logbook.Proofs.Layout.Shown
import Logbook.Proofs.Layout.Strings
import Logbook.Proofs.Registry.Calls
import Logbook.Proofs.Registry.Catalogue
import Logbook.Proofs.Registry.Close
import Logbook.Proofs.Registry.DrainCalls
import Logbook.Proofs.Registry.Dump
import Logbook.Proofs.Registry.Echoes
import Logbook.Proofs.Registry.Flush
import Logbook.Proofs.Registry.Order
import Logbook.Proofs.Registry.Unwritten
import Logbook.Proofs.Text.Quoted
import Logbook.Proofs.Value.Named
import Logbook.Proofs.Value.Record
import Logbook.Proofs.Writer.Chunks
