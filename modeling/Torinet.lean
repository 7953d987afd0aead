import Torinet.Chat.Bounds
import Torinet.Chat.Credit
import Torinet.Chat.Frames
import Torinet.Chat.Relay
import Torinet.Lib.Hub
import Torinet.Lib.Machine
import Torinet.Lib.Outbox
import Torinet.Message.Codes
import Torinet.Message.Lengths
import Torinet.Server.Accept
import Torinet.Server.Closing
import Torinet.Server.Ids
import Torinet.Server.Restart
import Torinet.Server.Threads
import Torinet.Session.LifeCycle
import Torinet.Session.Receive
import Torinet.Session.Resync
import Torinet.Session.Send
import Torinet.Chat.Ranking
import Torinet.ChatClient
import Torinet.Client.Commands
import Torinet.Lib.Tokens
import Torinet.ChatSystem
import Torinet.Client.Directions
import Torinet.Chat.Broadcast
import Torinet.Client.EndToEnd
import Torinet.Client.Scores
import Torinet.Server.Balance
import Torinet.Client.Traffic
import Torinet.Client.Ending
import Torinet.Chat.Texts
import Torinet.Server.Shutdown
import Torinet.Chat.Steps
import Torinet.Client.Failures
import Torinet.Client.Isolation
