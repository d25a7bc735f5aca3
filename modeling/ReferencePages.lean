import ReferencePages.Main
import ReferencePages.Routes
import ReferencePages.Proofs.Sync.Place
import ReferencePages.Proofs.Sync.Step
import ReferencePages.Proofs.Sync.Planning
import ReferencePages.Proofs.Sync.AllOrNothing
import ReferencePages.Proofs.Markers
import ReferencePages.Proofs.Snippet.Indentation
import ReferencePages.Proofs.Snippet.Breaking
import ReferencePages.Proofs.Snippet.Significant
import ReferencePages.Proofs.Snippet.Spacing
import ReferencePages.Proofs.Snippet.Conservation
import ReferencePages.Proofs.Json.RoundTrip
import ReferencePages.Proofs.Listing
import ReferencePages.Proofs.Sync.Listing
import ReferencePages.Proofs.Text.Blank
import ReferencePages.Proofs.Text.Lines
import ReferencePages.Proofs.DocComment.Gutter
import ReferencePages.Proofs.Routes
import ReferencePages.Proofs.DocComment.Canonical
import ReferencePages.Proofs.Snippet.Lexing
import ReferencePages.Proofs.Snippet.Settled
import ReferencePages.Proofs.Snippet.Following
import ReferencePages.Proofs.Snippet.Closing
import ReferencePages.Proofs.Snippet.Setting
import ReferencePages.Proofs.Snippet.SetLine
import ReferencePages.Proofs.Snippet.Laid
import ReferencePages.Proofs.Snippet.Ending
import ReferencePages.Proofs.Snippet.Segment
import ReferencePages.Proofs.Snippet.Parts
import ReferencePages.Proofs.Snippet.Broken
import ReferencePages.Proofs.Snippet.Idempotence
import ReferencePages.Proofs.Sync.Inputs
import ReferencePages.Proofs.Sync.DryRun
import ReferencePages.Proofs.Sync.SameButPages
import ReferencePages.Proofs.Sync.Rerun
import ReferencePages.Proofs.Sync.Reach
import ReferencePages.Proofs.Snippet.Reading
import ReferencePages.Proofs.Snippet.Asides.Kept
import ReferencePages.Proofs.SiteLink.Local
import ReferencePages.Proofs.SiteLink.Idempotence
import ReferencePages.Proofs.Sync.InOrder
import ReferencePages.Proofs.Snippet.FunctionAlias
import ReferencePages.Proofs.Snippet.Width
import ReferencePages.Proofs.Snippet.TabsOrSpaces
import ReferencePages.Proofs.Snippet.Requoting
import ReferencePages.Proofs.Snippet.Cuts
import ReferencePages.Proofs.DocComment.Fence
import ReferencePages.Proofs.Isolation
import ReferencePages.Proofs.TypeScript.Cursor
import ReferencePages.Proofs.TypeScript.Reads
import ReferencePages.Proofs.TypeScript.Body
import ReferencePages.Proofs.TypeScript.Yields
import ReferencePages.Proofs.Extraction.Exports
import ReferencePages.Proofs.Extraction.Collapse
import ReferencePages.Proofs.Substitution
import ReferencePages.Proofs.Snippet.Placing
import ReferencePages.Proofs.Snippet.Keyword
import ReferencePages.Proofs.Snippet.Ends
import ReferencePages.Proofs.Snippet.Terminated
import ReferencePages.Proofs.Extraction.CollapsedSnippet
import ReferencePages.Proofs.Snippet.DanglingCommas
import ReferencePages.Proofs.DocComment.FenceContent
import ReferencePages.Proofs.DocComment.CodeSpan
import ReferencePages.Proofs.DocComment.ParamName
import ReferencePages.Proofs.DocComment.ParamSpelling
import ReferencePages.Proofs.DocComment.ExampleLines
import ReferencePages.Proofs.DocComment.TypeMarker
import ReferencePages.Proofs.SiteLink.PlainLink
import ReferencePages.Proofs.Results
import ReferencePages.Proofs.SiteLink.ModuleAnchor
import ReferencePages.Proofs.SymbolTexts
import ReferencePages.Proofs.Extraction.Documented
import ReferencePages.Proofs.DocComment.PrivateMark
import ReferencePages.Proofs.Extraction.PrivateMembers
import ReferencePages.Proofs.Routes.Versions
import ReferencePages.Proofs.SymbolTree
import ReferencePages.Proofs.Preview
import ReferencePages.Proofs.Markdown.Reading
import ReferencePages.Proofs.Markdown.Balance
import ReferencePages.Proofs.Markdown.FencedBlocks
import ReferencePages.Proofs.Config
import ReferencePages.Proofs.Sync.Commit
import ReferencePages.Proofs.Snippet.Resplitting
import ReferencePages.Proofs.Snippet.Brackets
import ReferencePages.Proofs.Snippet.Parentheses
