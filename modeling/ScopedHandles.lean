import ScopedHandles.Main
import ScopedHandles.Proofs.Text
import ScopedHandles.Proofs.Character
import ScopedHandles.Proofs.Scanner
import ScopedHandles.Proofs.Scope
import ScopedHandles.Proofs.Renaming
import ScopedHandles.Proofs.Search
import ScopedHandles.Proofs.Head
import ScopedHandles.Proofs.Enclosure
import ScopedHandles.Proofs.BlockStructure
import ScopedHandles.Proofs.Pass
import ScopedHandles.Proofs.Outcome
import ScopedHandles.Proofs.Reading
import ScopedHandles.Proofs.Lines
import ScopedHandles.Proofs.Quiet
import ScopedHandles.Proofs.Statement
import ScopedHandles.Proofs.Tidy
import ScopedHandles.Proofs.HeaderLines
import ScopedHandles.Proofs.Transfer
import ScopedHandles.Proofs.Apart
import ScopedHandles.Proofs.Splice
import ScopedHandles.Proofs.TidyRun
import ScopedHandles.Proofs.Accounting
import ScopedHandles.Proofs.Attribution
import ScopedHandles.Proofs.Mending
import ScopedHandles.Proofs.Idempotence
import ScopedHandles.Proofs.Identifier
import ScopedHandles.Proofs.HeaderIdentifier
import ScopedHandles.Proofs.HandleSite
import ScopedHandles.Proofs.Numbering
import ScopedHandles.Proofs.Freshness
import ScopedHandles.Proofs.Collision
import ScopedHandles.Proofs.Divergence
import ScopedHandles.Proofs.Collect
import ScopedHandles.Proofs.Run
import ScopedHandles.Proofs.Token
import ScopedHandles.Proofs.Order
import ScopedHandles.Proofs.Summary
import ScopedHandles.Proofs.HeaderName
import ScopedHandles.Proofs.Placeholder
import ScopedHandles.Proofs.Exchange
import ScopedHandles.Proofs.CodeUse
import ScopedHandles.Proofs.SingleCall
import ScopedHandles.Proofs.ClosedHeader
import ScopedHandles.Proofs.Balance
import ScopedHandles.Proofs.CommentDepth
import ScopedHandles.Proofs.Scan
import ScopedHandles.Proofs.HeaderContent
import ScopedHandles.Proofs.LooseHead
import ScopedHandles.Proofs.Completion
import ScopedHandles.Proofs.MendedHeader
import ScopedHandles.Proofs.FinalRepair
import ScopedHandles.Proofs.HeaderBrace
import ScopedHandles.Proofs.HiddenEscape
import ScopedHandles.Proofs.LineBreak
import ScopedHandles.Proofs.CallEnd
import ScopedHandles.Proofs.Reordering
import ScopedHandles.Proofs.Collection
import ScopedHandles.Proofs.Overlooked
