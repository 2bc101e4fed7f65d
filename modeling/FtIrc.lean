import FtIrc.Lib.Runs
import FtIrc.Lib.Trace
import FtIrc.Lib.Ranked
import FtIrc.Lib.Ledger
import FtIrc.Lib.Delimited
import FtIrc.Lib.Replace
import FtIrc.Lib.LastSet
import FtIrc.Lib.Outcome
import FtIrc.Text
import FtIrc.Split
import FtIrc.State
import FtIrc.Reply
import FtIrc.Registration
import FtIrc.Messaging
import FtIrc.Channel
import FtIrc.Mode
import FtIrc.Loop
import FtIrc.Memory
import FtIrc.Invariant
import FtIrc.Crlf
import FtIrc.Delivery
import FtIrc.Effect
import FtIrc.Steps
import FtIrc.Command
import FtIrc.Exec.Registration
import FtIrc.Exec.Messaging
import FtIrc.Exec.Leave
import FtIrc.Exec.Join
import FtIrc.Exec.Operator
import FtIrc.Exec.Mode
import FtIrc.Exec.Dispatch
import FtIrc.Exec.Cleanup
import FtIrc.Reach
import FtIrc.Receive
import FtIrc.Output
import FtIrc.Names
import FtIrc.Privileges
import FtIrc.NullPointers
import FtIrc.Authentication
import FtIrc.Spelling.Outcome
import FtIrc.Spelling.Join
import FtIrc.Spelling.Privmsg
import FtIrc.Spelling.Law
import FtIrc.Meaning.Basic
import FtIrc.Meaning.Registration
import FtIrc.Meaning.Leave
import FtIrc.Meaning.Messaging
import FtIrc.Meaning.Operator
import FtIrc.Meaning.Mode
import FtIrc.Meaning.Join
import FtIrc.Meaning.Command
import FtIrc.Meaning.Line
import FtIrc.Meaning.Relay
import FtIrc.Meaning.Cleanup
import FtIrc.Outsider
import FtIrc.Frame
import FtIrc.Stranger
import FtIrc.Forgery
import FtIrc.Transitions
import FtIrc.Inert
import FtIrc.Descriptors
import FtIrc.Departure
import FtIrc.Isolation
import FtIrc.Operators
import FtIrc.Lists
import FtIrc.Roster
import FtIrc.Admission
import FtIrc.Tracking
import FtIrc.Pruning
import FtIrc.Batching
import FtIrc.Iterations
import FtIrc.JoinKeys
import FtIrc.ModeOptions
import FtIrc.UsableKeys
import FtIrc.Parse
import FtIrc.Grammar
import FtIrc.ChannelNames
import FtIrc.ChannelMessages
import FtIrc.ModeLines
import FtIrc.Limits
import FtIrc.NamesList
import FtIrc.Topics
import FtIrc.DirectMessages
import FtIrc.Notices
import FtIrc.Invitations
import FtIrc.Welcome.Lines
import FtIrc.Welcome.Law
import FtIrc.Service
import FtIrc.Refinement
import FtIrc.Hearing
import FtIrc.Progress
import FtIrc.Resources
import FtIrc.Calls
import FtIrc.Seniority
import FtIrc.Process
import FtIrc.Rounds
import FtIrc.Draining
import FtIrc.Password
import FtIrc.Sizes
import FtIrc.Crashing
import FtIrc.Console
