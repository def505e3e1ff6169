import ProfileTrace.CommandLine.Program
import ProfileTrace.Main
import ProfileTrace.Proofs.Record.Scan
import ProfileTrace.Proofs.Record.Line
import ProfileTrace.Proofs.Record.Columns
import ProfileTrace.Proofs.Record.Layout
import ProfileTrace.Proofs.Record.Parsing
import ProfileTrace.Proofs.Record.Isolation
import ProfileTrace.Proofs.Record.Cutting
import ProfileTrace.Proofs.Record.Headings
import ProfileTrace.Proofs.Cursor.Source
import ProfileTrace.Proofs.Cursor.Fetching
import ProfileTrace.Proofs.Cursor.Simulation
import ProfileTrace.Proofs.Cursor.Plain
import ProfileTrace.Proofs.Cursor.Window
import ProfileTrace.Proofs.Record.Streaming
import ProfileTrace.Proofs.Record.Independence
import ProfileTrace.Proofs.Chunk.Window
import ProfileTrace.Proofs.Chunk.Search
import ProfileTrace.Proofs.Chunk.Handout
import ProfileTrace.Proofs.Chunk.Spacing
import ProfileTrace.Proofs.Chunk.SinglePass
import ProfileTrace.Proofs.Chunk.Written
import ProfileTrace.Proofs.Chunk.EventCount
import ProfileTrace.Proofs.Cursor.Capacity
import ProfileTrace.Proofs.Chunk.Coverage
import ProfileTrace.Proofs.Seconds.Order
import ProfileTrace.Proofs.Blocked.Intervals
import ProfileTrace.Proofs.Blocked.States
import ProfileTrace.Proofs.Record.WellFormed
import ProfileTrace.Proofs.Text.Written
import ProfileTrace.Proofs.Record.Printing
import ProfileTrace.Proofs.Record.Reads
import ProfileTrace.Proofs.Record.CodeLines
import ProfileTrace.Proofs.Record.RoundTrip
import ProfileTrace.Proofs.Chunk.Truncation
import ProfileTrace.Proofs.CallTree.Interning
import ProfileTrace.Proofs.CallTree.Spelling
import ProfileTrace.Proofs.Session.Steps
import ProfileTrace.Proofs.Session.Accounting
import ProfileTrace.Proofs.Session.Arrangement
import ProfileTrace.Proofs.Session.Schedules
import ProfileTrace.Proofs.Seconds.Arithmetic
import ProfileTrace.Proofs.Seconds.Nearest
import ProfileTrace.Proofs.Seconds.Shortest
import ProfileTrace.Proofs.Seconds.Spelling
import ProfileTrace.Proofs.Blocked.Length
import ProfileTrace.Proofs.Session.SingleWorker
import ProfileTrace.Proofs.Blocked.Absent
import ProfileTrace.Proofs.Blocked.Disjoint
import ProfileTrace.Proofs.CallTree.Interleaving
import ProfileTrace.Proofs.Cursor.Failing
import ProfileTrace.Proofs.Cursor.Lockstep
import ProfileTrace.Proofs.Record.Failing
import ProfileTrace.Proofs.Session.Timed
import ProfileTrace.Proofs.Chunk.Lockstep
import ProfileTrace.Proofs.Chunk.Skipping
import ProfileTrace.Proofs.Session.Moves
import ProfileTrace.Proofs.Session.Faults
import ProfileTrace.Proofs.Session.Limit
import ProfileTrace.Proofs.Cursor.Unseekable
import ProfileTrace.Proofs.Pool.Workers
import ProfileTrace.Proofs.Cursor.Integers
import ProfileTrace.Proofs.Cursor.Ending
import ProfileTrace.Proofs.Text.Words
import ProfileTrace.Proofs.Record.SymbolMaps
import ProfileTrace.Proofs.Record.Calls
import ProfileTrace.Proofs.Seconds.Monotone
import ProfileTrace.Proofs.Session.Chronology
import ProfileTrace.Proofs.Document.Reading
import ProfileTrace.Proofs.Document.Numbers
import ProfileTrace.Proofs.Document.Scanning
import ProfileTrace.Proofs.Document.Written
import ProfileTrace.Proofs.Document.Copy
import ProfileTrace.Proofs.Session.Numbering
import ProfileTrace.Proofs.Session.Export
import ProfileTrace.Proofs.Text.ModuleNames
import ProfileTrace.Proofs.Cursor.Sentinels
import ProfileTrace.Proofs.Cursor.Rewinding
import ProfileTrace.Proofs.Record.SwitchLines
import ProfileTrace.Proofs.Text.Layers
