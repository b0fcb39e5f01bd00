import SourceTrees.Config.Cached
import SourceTrees.Flight.Callers
import SourceTrees.Main
import SourceTrees.Service.Session
import SourceTrees.Tree.Rows
import SourceTrees.Proofs.Loop.Tended
import SourceTrees.Proofs.Loop.Roles
import SourceTrees.Proofs.Loop.Sound
import SourceTrees.Proofs.Loop.Later
import SourceTrees.Proofs.Flight.Kept
import SourceTrees.Proofs.Flight.Moves
import SourceTrees.Proofs.Flight.RunOnce
import SourceTrees.Proofs.Loop.Alike
import SourceTrees.Proofs.Flight.Aside
import SourceTrees.Proofs.Flight.Twins
import SourceTrees.Proofs.Flight.Unseen
import SourceTrees.Proofs.Service.Runs
import SourceTrees.Proofs.Service.Stages
import SourceTrees.Proofs.Service.Jobs
import SourceTrees.Proofs.Service.Steps
import SourceTrees.Proofs.Service.Leads
import SourceTrees.Proofs.Loop.Cancels
import SourceTrees.Proofs.Service.Order
import SourceTrees.Proofs.Service.Turns
import SourceTrees.Proofs.Service.Borrowed
import SourceTrees.Proofs.Service.Whole
import SourceTrees.Proofs.Service.Grips
import SourceTrees.Proofs.Service.Locks
import SourceTrees.Proofs.Engine.Attempts
import SourceTrees.Proofs.Service.Settling
import SourceTrees.Proofs.Service.Queue
import SourceTrees.Proofs.Service.Manned
import SourceTrees.Proofs.Service.Lending
import SourceTrees.Proofs.Engine.Worlds
import SourceTrees.Proofs.Service.Answers
import SourceTrees.Proofs.Service.Booting
import SourceTrees.Proofs.Service.Attending
import SourceTrees.Proofs.Service.Course
import SourceTrees.Proofs.Service.Readiness
import SourceTrees.Proofs.Service.Loading
import SourceTrees.Proofs.Service.Fetching
import SourceTrees.Proofs.Service.OneParser
import SourceTrees.Proofs.Tree.Copy
import SourceTrees.Proofs.Tree.Widening
import SourceTrees.Proofs.Service.Outcomes
import SourceTrees.Proofs.Service.Undisturbed
import SourceTrees.Proofs.Service.ParseFaults
import SourceTrees.Proofs.Loop.Agenda
import SourceTrees.Proofs.Service.Requests
import SourceTrees.Proofs.Service.ParserJobs
import SourceTrees.Proofs.Service.Bindings
import SourceTrees.Proofs.Service.ParseCourse
import SourceTrees.Proofs.Service.OwnTrees
import SourceTrees.Proofs.Engine.Answering
import SourceTrees.Proofs.Service.Foretold
import SourceTrees.Proofs.Loop.Stricken
import SourceTrees.Proofs.Loop.Timers
import SourceTrees.Proofs.Service.Cancelled
import SourceTrees.Proofs.Service.Transparent
import SourceTrees.Proofs.Service.Accounts
import SourceTrees.Proofs.Service.Fairness
import SourceTrees.Proofs.Service.Retries
import SourceTrees.Proofs.Service.Closing
import SourceTrees.Proofs.Service.Lifespan
import SourceTrees.Proofs.Loop.Likeness
import SourceTrees.Proofs.Loop.Recast
import SourceTrees.Proofs.Loop.StandIn
import SourceTrees.Proofs.Service.Blind
import SourceTrees.Proofs.Service.Unbegun
import SourceTrees.Proofs.Config.Locators
import SourceTrees.Proofs.Service.Accepting
import SourceTrees.Proofs.Service.AtOnce
import SourceTrees.Proofs.Service.FileCalls
import SourceTrees.Proofs.Service.FileAnswers
import SourceTrees.Proofs.Service.FileTools
import SourceTrees.Proofs.Service.Asking
import SourceTrees.Proofs.Service.Starting
import SourceTrees.Proofs.Loop.Hooks
import SourceTrees.Proofs.Service.Prompt
import SourceTrees.Proofs.Service.Obliging
import SourceTrees.Proofs.Service.Failing
import SourceTrees.Proofs.Service.Alone
import SourceTrees.Proofs.Service.AloneTurns
import SourceTrees.Proofs.Service.Secluded
import SourceTrees.Proofs.Service.Recovery
import SourceTrees.Proofs.Tree.Outlined
import SourceTrees.Proofs.Text.Lowering
import SourceTrees.Proofs.Language.Endings
import SourceTrees.Proofs.Tree.SourceText
import SourceTrees.Proofs.Config.Keeping
import SourceTrees.Proofs.Config.Stated
import SourceTrees.Proofs.Service.Availability
import SourceTrees.Proofs.Loop.Groups
import SourceTrees.Proofs.Service.Gathering
import SourceTrees.Proofs.Service.Seeking
import SourceTrees.Proofs.Service.Preloading
import SourceTrees.Proofs.Service.Warming
import SourceTrees.Proofs.Service.WarmedUp
import SourceTrees.Proofs.Engine.Deeds
import SourceTrees.Proofs.Loop.Names
import SourceTrees.Proofs.Loop.Matches
import SourceTrees.Proofs.Loop.Counterpart
import SourceTrees.Proofs.Service.Pairing
import SourceTrees.Proofs.Service.Mirrored
import SourceTrees.Proofs.Service.Beside
import SourceTrees.Proofs.Service.Elsewhere
import SourceTrees.Proofs.Service.Remnant
import SourceTrees.Proofs.Service.Unaddressed
import SourceTrees.Proofs.Service.SideBySide
import SourceTrees.Proofs.Service.Compiled
import SourceTrees.Proofs.Service.Outset
import SourceTrees.Proofs.Service.Independence
import SourceTrees.Proofs.Loop.Tellings
import SourceTrees.Proofs.Service.Hearing
import SourceTrees.Proofs.Service.Endings
import SourceTrees.Proofs.Service.WarmFaults
import SourceTrees.Proofs.Service.WarmEndings
