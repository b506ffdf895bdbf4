import Smolweb.Dict.Client
import Smolweb.Dict.Verify.Commands
import Smolweb.Dict.Verify.Params
import Smolweb.Dict.Verify.Server
import Smolweb.Dict.Verify.Synchrony
import Smolweb.Dict.Wire
import Smolweb.FileHandler
import Smolweb.Finger.Query
import Smolweb.Finger.Verify.Query
import Smolweb.Finger.Verify.Webfinger
import Smolweb.Finger.Webfinger
import Smolweb.Fsp.Client
import Smolweb.Fsp.Directory
import Smolweb.Fsp.Transfer
import Smolweb.Fsp.Verify.Checksum
import Smolweb.Fsp.Verify.Directory
import Smolweb.Fsp.Verify.Matching
import Smolweb.Fsp.Verify.RoundTrip
import Smolweb.Fsp.Verify.Transfer
import Smolweb.Gemini.Client
import Smolweb.Gemini.Gemtext
import Smolweb.Gemini.Server
import Smolweb.Gemini.Titan
import Smolweb.Gemini.Verify.Dialogue
import Smolweb.Gemini.Verify.Exchange
import Smolweb.Gemini.Verify.Gemtext
import Smolweb.Gemini.Verify.Pinning
import Smolweb.Gemini.Verify.Server
import Smolweb.Gemini.Verify.Titan
import Smolweb.Gopher.Attributes
import Smolweb.Gopher.Client
import Smolweb.Gopher.Menu
import Smolweb.Gopher.Server
import Smolweb.Gopher.Verify.Attributes
import Smolweb.Gopher.Verify.Fetch
import Smolweb.Gopher.Verify.Menu
import Smolweb.Gopher.Verify.Plus
import Smolweb.Gopher.Verify.Reply
import Smolweb.Guppy.Client
import Smolweb.Guppy.Fetch
import Smolweb.Guppy.Files
import Smolweb.Guppy.Packet
import Smolweb.Guppy.Serve
import Smolweb.Guppy.Server
import Smolweb.Guppy.Verify.EndToEnd
import Smolweb.Guppy.Verify.Limit
import Smolweb.Guppy.Verify.Outcome
import Smolweb.Guppy.Verify.Reassembly
import Smolweb.Guppy.Verify.Recovery
import Smolweb.Guppy.Verify.Served
import Smolweb.Guppy.Verify.Session
import Smolweb.Guppy.Verify.Sessions
import Smolweb.Guppy.Verify.Table
import Smolweb.Guppy.Verify.Transfer
import Smolweb.Guppy.Verify.Window
import Smolweb.Kepler.Client
import Smolweb.Kepler.Verify.Header
import Smolweb.Kepler.Verify.Received
import Smolweb.Kepler.Verify.Reply
import Smolweb.Kepler.Verify.Requests
import Smolweb.Kepler.Wire
import Smolweb.Lib.Arith
import Smolweb.Lib.Capped
import Smolweb.Lib.Contiguous
import Smolweb.Lib.Crlf
import Smolweb.Lib.Dialogue
import Smolweb.Lib.Duplex
import Smolweb.Lib.Fenced
import Smolweb.Lib.Fetch
import Smolweb.Lib.Fields
import Smolweb.Lib.IndexedLog
import Smolweb.Lib.Lenient
import Smolweb.Lib.Lines
import Smolweb.Lib.Network
import Smolweb.Lib.Percent
import Smolweb.Lib.Prog
import Smolweb.Lib.QueryString
import Smolweb.Lib.Records
import Smolweb.Lib.Run
import Smolweb.Lib.StreamLine
import Smolweb.Lib.Toggle
import Smolweb.Lib.Transfer
import Smolweb.Lib.Url
import Smolweb.Lib.UrlPath
import Smolweb.Misfin.Client
import Smolweb.Misfin.Gemmail
import Smolweb.Misfin.IdentityStore
import Smolweb.Misfin.Server
import Smolweb.Misfin.Status
import Smolweb.Misfin.Verify.Delivery
import Smolweb.Misfin.Verify.Gemmail
import Smolweb.Misfin.Verify.IdentityStore
import Smolweb.Misfin.Verify.Log
import Smolweb.Misfin.Verify.Reply
import Smolweb.Misfin.Verify.Request
import Smolweb.Misfin.Verify.Rotation
import Smolweb.Misfin.Verify.Thread
import Smolweb.Misfin.Verify.Tofu
import Smolweb.Misfin.Verify.Transaction
import Smolweb.Misfin.Verify.Truncation
import Smolweb.Nex.Client
import Smolweb.Nex.Listing
import Smolweb.Nex.Server
import Smolweb.Nex.Verify.Crawl
import Smolweb.Nex.Verify.Listing
import Smolweb.Scorpion.Blocks
import Smolweb.Scorpion.Client
import Smolweb.Scorpion.Document
import Smolweb.Scorpion.Request
import Smolweb.Scorpion.Response
import Smolweb.Scorpion.Server
import Smolweb.Scorpion.Status
import Smolweb.Scorpion.Verify.Lines
import Smolweb.Scorpion.Verify.Reading
import Smolweb.Scorpion.Verify.Replies
import Smolweb.Scorpion.Verify.Requests
import Smolweb.Scorpion.Verify.RoundTrip
import Smolweb.Scorpion.Verify.Serve
import Smolweb.Scorpion.Verify.Truncation
import Smolweb.Scroll.Client
import Smolweb.Scroll.Scrolltext
import Smolweb.Scroll.Verify.Escaping
import Smolweb.Scroll.Verify.Reply
import Smolweb.Scroll.Verify.Requests
import Smolweb.Scroll.Verify.Scrolltext
import Smolweb.Scroll.Verify.Spans
import Smolweb.Scroll.Wire
import Smolweb.Spartan.Client
import Smolweb.Spartan.Files
import Smolweb.Spartan.Response
import Smolweb.Spartan.Server
import Smolweb.Spartan.Verify.Exchange
import Smolweb.Spartan.Verify.Requests
import Smolweb.Spartan.Verify.Responses
import Smolweb.TextProtocol.Body
import Smolweb.TextProtocol.Client
import Smolweb.TextProtocol.Verify.Body
import Smolweb.Verify.Directories
import Smolweb.Verify.Documents
import Smolweb.Verify.Files
import Smolweb.Verify.RequestLine
