import IndexFs.Gate.Session
import IndexFs.Main
import IndexFs.Proofs.Channel.Alike
import IndexFs.Proofs.Channel.Correlation
import IndexFs.Proofs.Channel.History
import IndexFs.Proofs.Channel.Ids
import IndexFs.Proofs.Channel.Lockstep
import IndexFs.Proofs.Channel.Message
import IndexFs.Proofs.Channel.Others
import IndexFs.Proofs.Channel.Pending
import IndexFs.Proofs.Channel.Phase
import IndexFs.Proofs.Channel.Settle
import IndexFs.Proofs.Channel.Unbroken
import IndexFs.Proofs.Decimal
import IndexFs.Proofs.FileSystem.Link
import IndexFs.Proofs.FileSystem.Session
import IndexFs.Proofs.FileSystem.Transparency
import IndexFs.Proofs.Frame.Grammar
import IndexFs.Proofs.Frame.Stream
import IndexFs.Proofs.Json.Members
import IndexFs.Proofs.Json.Number
import IndexFs.Proofs.Json.Text
import IndexFs.Proofs.Json.Token
import IndexFs.Proofs.Json.Value
import IndexFs.Proofs.Utf8
import IndexFs.Watch
import IndexFs.Proofs.Gate.History
import IndexFs.Proofs.Gate.Outcome
import IndexFs.Proofs.Channel.Closing
import IndexFs.Proofs.Channel.Queue
import IndexFs.Proofs.Channel.Wire
import IndexFs.Proofs.Channel.Pieces
import IndexFs.Proofs.Channel.Flow
import IndexFs.Proofs.Channel.Streams
import IndexFs.Proofs.Channel.Unrelated
import IndexFs.Proofs.Json.Keys
import IndexFs.Proofs.Channel.Answered
import IndexFs.Proofs.Channel.Owed
import IndexFs.Proofs.FileSystem.Calm
import IndexFs.Proofs.FileSystem.Settled
import IndexFs.Proofs.FileSystem.ReadOnly
import IndexFs.Proofs.FileSystem.History
import IndexFs.Proofs.FileSystem.Introduction
import IndexFs.Proofs.FileSystem.Delivery
import IndexFs.Proofs.FileSystem.StatErrors
import IndexFs.Proofs.FileSystem.Account
import IndexFs.Proofs.Url.Reread
import IndexFs.Proofs.Url.Child
import IndexFs.Proofs.Tree.Unfolding
import IndexFs.Proofs.Tree.Ending
import IndexFs.Proofs.Tree.Outline
import IndexFs.Proofs.Frame.Truncation
import IndexFs.Proofs.Frame.Writing
import IndexFs.Proofs.Base64
import IndexFs.Proofs.FileSystem.Listing
import IndexFs.Proofs.FileSystem.Content
import IndexFs.Proofs.FileSystem.Metadata
import IndexFs.Proofs.Json.Record
import IndexFs.Proofs.Json.Tree
import IndexFs.Proofs.Json.Typed
import IndexFs.Proofs.Json.Lines
import IndexFs.Proofs.Config
import IndexFs.Proofs.Meter.Calls
import IndexFs.Proofs.Meter.Counting
import IndexFs.Proofs.Meter.Transparency
import IndexFs.Proofs.Meter.Phases
import IndexFs.Proofs.Meter.Steps
import IndexFs.Proofs.CommandLine.Location
