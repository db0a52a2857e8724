import TagTemplate.Config.Settings
import TagTemplate.Store.Engine
import TagTemplate.Store.Recipe
import TagTemplate.Proofs.Text.Pair
import TagTemplate.Proofs.Template.TagEnd
import TagTemplate.Proofs.Template.Scan
import TagTemplate.Proofs.Template.Strip
import TagTemplate.Proofs.Template.Composition
import TagTemplate.Proofs.Text.Parts
import TagTemplate.Proofs.Expression.Parts
import TagTemplate.Proofs.Tag.Parts
import TagTemplate.Proofs.Tag.CodeLaw
import TagTemplate.Proofs.Expression.Operators
import TagTemplate.Proofs.Tag.FragmentLaw
import TagTemplate.Proofs.Template.Braces
import TagTemplate.Proofs.Template.ReadBack
import TagTemplate.Proofs.Template.FixedPoint
import TagTemplate.Proofs.Template.Padding
import TagTemplate.Proofs.Tag.Seams
import TagTemplate.Proofs.Template.Recompile
import TagTemplate.Proofs.Expression.Joined
import TagTemplate.Proofs.Template.Written
import TagTemplate.Proofs.Store.MapRefinement
import TagTemplate.Proofs.Store.OneCompilation
import TagTemplate.Proofs.Store.EngineHistory
import TagTemplate.Proofs.Template.Places
import TagTemplate.Proofs.Expression.Decomposition
import TagTemplate.Proofs.Expression.Group
import TagTemplate.Proofs.Tag.Metadata
import TagTemplate.Proofs.Text.Cuts
import TagTemplate.Proofs.Expression.Pipes
import TagTemplate.Proofs.Text.Pieces
import TagTemplate.Proofs.Expression.Symbols
import TagTemplate.Proofs.Expression.Paths
import TagTemplate.Proofs.Text.Occurrences
import TagTemplate.Proofs.Template.Edges
import TagTemplate.Proofs.Template.Blocks
import TagTemplate.Proofs.Tag.Sigils
import TagTemplate.Proofs.Tag.LoopSpellings
import TagTemplate.Proofs.Store.Failure
import TagTemplate.Proofs.Script.Isset
import TagTemplate.Proofs.Tag.Rewording
import TagTemplate.Proofs.Text.CutPlaces
