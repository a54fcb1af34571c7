import SyntaxLens.Document.Snapshots
import SyntaxLens.Main
import SyntaxLens.Tree.Builder
import SyntaxLens.Viewer.Screen
import SyntaxLens.Proofs.Command.Resuming
import SyntaxLens.Proofs.Document.Flattening
import SyntaxLens.Proofs.Document.Outcomes
import SyntaxLens.Proofs.Document.Preorder
import SyntaxLens.Proofs.Focus.Descending
import SyntaxLens.Proofs.Focus.Repeating
import SyntaxLens.Proofs.Format.Markup
import SyntaxLens.Proofs.Format.Renumbering
import SyntaxLens.Proofs.Fragment.Lines
import SyntaxLens.Proofs.Rendering.Brackets
import SyntaxLens.Proofs.Rendering.Order
import SyntaxLens.Proofs.Rendering.Placeholders
import SyntaxLens.Proofs.Rendering.Spacing
import SyntaxLens.Proofs.Settings.Layering
import SyntaxLens.Proofs.Viewer.Arrows
import SyntaxLens.Proofs.Viewer.Highlight
import SyntaxLens.Proofs.Viewer.Scrolling
