import NetPixeld.Client.Application
import NetPixeld.Client.Batching
import NetPixeld.Client.Button
import NetPixeld.Client.Dispatch
import NetPixeld.Client.Drawing
import NetPixeld.Client.Filter
import NetPixeld.Client.Focus
import NetPixeld.Client.Frames
import NetPixeld.Client.Interleaving
import NetPixeld.Client.Lifetimes
import NetPixeld.Client.LoginScene
import NetPixeld.Client.NetworkClient
import NetPixeld.Client.Presses
import NetPixeld.Client.Process
import NetPixeld.Client.Raylib
import NetPixeld.Client.Requests
import NetPixeld.Client.Returns
import NetPixeld.Client.SceneChanges
import NetPixeld.Client.SceneManager
import NetPixeld.Client.Shown
import NetPixeld.Client.TextBox
import NetPixeld.Client.Threads
import NetPixeld.Common.Framing
import NetPixeld.Common.Protocol
import NetPixeld.Common.Resource
import NetPixeld.Foundation.Bytes
import NetPixeld.Foundation.Descent
import NetPixeld.Foundation.Exception
import NetPixeld.Foundation.Levels
import NetPixeld.Foundation.Lines
import NetPixeld.Foundation.Munch
import NetPixeld.Foundation.Sequenced
import NetPixeld.Foundation.SortedMap
import NetPixeld.Foundation.Transition
import NetPixeld.Json.Characters
import NetPixeld.Json.Completeness
import NetPixeld.Json.Conversion
import NetPixeld.Json.Dump
import NetPixeld.Json.DumpText
import NetPixeld.Json.Floats
import NetPixeld.Json.Grammar
import NetPixeld.Json.Lexer
import NetPixeld.Json.Numbers
import NetPixeld.Json.Parser
import NetPixeld.Json.Reference
import NetPixeld.Json.Soundness
import NetPixeld.Json.Strings
import NetPixeld.Json.Tokens
import NetPixeld.Json.Utf8
import NetPixeld.Json.Value
import NetPixeld.Json.Vendored
import NetPixeld.Server.Answers
import NetPixeld.Server.AtomicSave
import NetPixeld.Server.Authentication
import NetPixeld.Server.Effects
import NetPixeld.Server.Enrolled
import NetPixeld.Server.FileFormat
import NetPixeld.Server.Handling
import NetPixeld.Server.Harvest
import NetPixeld.Server.Inbound
import NetPixeld.Server.JsonDB
import NetPixeld.Server.Mutators
import NetPixeld.Server.NullSafety
import NetPixeld.Server.Outgoing
import NetPixeld.Server.Persistence
import NetPixeld.Server.Registry
import NetPixeld.Server.Server
import NetPixeld.Server.Session
import NetPixeld.Server.Survival
import NetPixeld.Server.UuidView
import NetPixeld.System.Agreement
import NetPixeld.System.Announcements
import NetPixeld.System.Convergence
import NetPixeld.System.Credentials
import NetPixeld.System.Decoding
import NetPixeld.System.Delivery
import NetPixeld.System.Draining
import NetPixeld.System.Following
import NetPixeld.System.Ledger
import NetPixeld.System.Network
import NetPixeld.System.Numbering
import NetPixeld.System.Provenance
import NetPixeld.System.Requests
import NetPixeld.System.Restart
import NetPixeld.System.Timeline
import NetPixeld.System.Wire
