import Factum.Lexer
import Factum.Serialize
import Factum.Disclosure
import Factum.Reparse
import Factum.Restart
import Factum.FastPath
import Factum.Faults
import Factum.Compact
import Factum.Vote
import Factum.Asserts
import Factum.Truncations
import Factum.Within
import Factum.Lossless
import Factum.Decimals
import Factum.Durations
import Factum.Overlap
import Factum.Packed
import Factum.Builtins
import Factum.Events
import Factum.Scores
import Factum.Lines
import Factum.Drops
import Factum.Decisions
import Factum.Depth
import Factum.Levels
import Factum.Signatures
import Factum.Vocabulary
import Factum.Joined
import Factum.Enclosed
import Factum.Total
import Factum.Session
import Factum.Lookups
import Factum.Document
import Factum.Resources
import Factum.Feeds
import Factum.Benchmarked
import Factum.Refusals
import Factum.Searches
