import Stencil.Files.Fault
import Stencil.Proofs.DepthBound
import Stencil.Proofs.PageEntry
import Stencil.Proofs.ReadBack
import Stencil.Proofs.ViewFiles
import Stencil.Settings.Basic
import Stencil.Value.Conversion
import Stencil.Proofs.Additions
import Stencil.Proofs.SharedFiles
import Stencil.Proofs.Listings
import Stencil.Proofs.SharedLookup
import Stencil.Proofs.OneMorePartial
import Stencil.Proofs.Collecting
import Stencil.Proofs.GrammarReading
import Stencil.Proofs.GrammarOfRuns
import Stencil.Proofs.Mentions
import Stencil.Proofs.Reachability
import Stencil.Proofs.SiteRuns
import Stencil.Proofs.FoundFunctions
import Stencil.Proofs.Resolution
import Stencil.Proofs.Locations
import Stencil.Proofs.MemoryTrees
import Stencil.Proofs.FirstFault
import Stencil.Proofs.MemoryLoads
import Stencil.Proofs.PageSeparation
import Stencil.Proofs.MemoryCoherence
import Stencil.Proofs.Spellings
import Stencil.Proofs.Tiling
import Stencil.Proofs.ErrorPlaces
import Stencil.Proofs.FileTrees
import Stencil.Proofs.DiskPaths
import Stencil.Proofs.DiskTrees
import Stencil.Proofs.SourceAgreement
import Stencil.Proofs.Rounding
import Stencil.Proofs.Comparisons
import Stencil.Proofs.Lookahead
import Stencil.Proofs.ActionTexts
import Stencil.Proofs.Splits
import Stencil.Proofs.Trimming
import Stencil.Proofs.Comments
import Stencil.Proofs.Bracketing
import Stencil.Proofs.FullTrees
import Stencil.Proofs.Fallbacks
import Stencil.Proofs.MemoryWalks
import Stencil.Proofs.RepeatedDefinitions
import Stencil.Proofs.Concatenation
import Stencil.Proofs.HoistedSources
import Stencil.Proofs.KeyPaths
import Stencil.Proofs.Separators
import Stencil.Proofs.SourceOrder
import Stencil.Proofs.DiskReach
import Stencil.Proofs.Slugs
import Stencil.Proofs.LayoutNames
import Stencil.Proofs.ConfiguredSources
