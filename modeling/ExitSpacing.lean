import ExitSpacing.Main
import ExitSpacing.Proofs.Marking
import ExitSpacing.Proofs.Passes
import ExitSpacing.Proofs.Joining
import ExitSpacing.Proofs.Layout
import ExitSpacing.Proofs.Rendering
import ExitSpacing.Proofs.Rounds
import ExitSpacing.Proofs.LineHeads
import ExitSpacing.Proofs.Carrying
import ExitSpacing.Proofs.Redeciding
import ExitSpacing.Proofs.Composition
import ExitSpacing.Proofs.Lexemes
import ExitSpacing.Proofs.Gaps
import ExitSpacing.Proofs.Words
import ExitSpacing.Proofs.Opening
import ExitSpacing.Proofs.Outlines
import ExitSpacing.Proofs.Reparsing
import ExitSpacing.Proofs.Bodies
import ExitSpacing.Proofs.Preserving
import ExitSpacing.Proofs.History
import ExitSpacing.Proofs.Draining
import ExitSpacing.Proofs.Outcomes
import ExitSpacing.Proofs.Writing
import ExitSpacing.Proofs.Shape
import ExitSpacing.Proofs.Accounting
import ExitSpacing.Proofs.Sources
import ExitSpacing.Proofs.Selecting
import ExitSpacing.Proofs.Escaping
import ExitSpacing.Proofs.Units
import ExitSpacing.Proofs.Slots
import ExitSpacing.Proofs.Progress
import ExitSpacing.Proofs.Stopping
import ExitSpacing.Proofs.Chapters
import ExitSpacing.Proofs.Refreshing
import ExitSpacing.Proofs.Determining
import ExitSpacing.Proofs.Parallel
import ExitSpacing.Proofs.Logging
import ExitSpacing.Proofs.Thresholds
import ExitSpacing.Proofs.Returning
import ExitSpacing.Proofs.Appending
import ExitSpacing.Proofs.Facing
import ExitSpacing.Proofs.Isolating
import ExitSpacing.Proofs.Replacing
import ExitSpacing.Proofs.Delivering
import ExitSpacing.Proofs.Exiting
import ExitSpacing.Proofs.Growing
import ExitSpacing.Proofs.Lines
import ExitSpacing.Proofs.LineEndings
import ExitSpacing.Proofs.Deciding
import ExitSpacing.Proofs.Foretelling
import ExitSpacing.Proofs.Splicing
import ExitSpacing.Proofs.Announcing
import ExitSpacing.Proofs.Entering
import ExitSpacing.Proofs.Sharing
import ExitSpacing.Proofs.Touring
import ExitSpacing.Proofs.Overlooking
import ExitSpacing.Proofs.Traversal
import ExitSpacing.Proofs.Grouping
import ExitSpacing.Proofs.Repeating
import ExitSpacing.Proofs.Piling
