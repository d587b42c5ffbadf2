import GnustepGui.Cassowary.SolverRuns
import GnustepGui.TextStorage.CacheAccounting
import GnustepGui.TextStorage.Coalescing
import GnustepGui.DiffableDataSource.Rows
import GnustepGui.KeyBinding.Reference
import GnustepGui.BezierPath.Reversing
import GnustepGui.BezierPath.ArchiveRoundTrip
import GnustepGui.BitmapImageRep.PNMReader
import GnustepGui.BitmapImageRep.ICNSReader
import GnustepGui.VisualFormat.AcceptsGrammar
import GnustepGui.TableView.Autosave
import GnustepGui.TableView.DragSelection
import GnustepGui.TreeController.Removing
import GnustepGui.OutlineView.Reloading
import GnustepGui.RTF.RoundTrip
import GnustepGui.AttributedString.ParagraphStyle
import GnustepGui.AttributedString.Attachments
import GnustepGui.AttributedString.WordBreaks
import GnustepGui.Menu.InStep
import GnustepGui.Menu.Selection
import GnustepGui.Printer.Finding
import GnustepGui.RTF.Restoring
import GnustepGui.RTF.ReadingBack
import GnustepGui.View.Ancestors
import GnustepGui.ArrayController.Selection
import GnustepGui.CollectionView.Reloading
import GnustepGui.Browser.Reuse
import GnustepGui.LayoutManager.IntAttributes
import GnustepGui.Cassowary.Combining
import GnustepGui.GridView.Runs
import GnustepGui.Table.Runs
import GnustepGui.Cassowary.Termination
import GnustepGui.LayoutManager.Coherence
import GnustepGui.TableView.RowCalls
import GnustepGui.Matrix.ListSelection
import GnustepGui.TableView.RowGeometry
import GnustepGui.TableView.FittedColumns
import GnustepGui.BitmapImageRep.OpaqueScan
import GnustepGui.BezierPath.Winding
import GnustepGui.BezierPath.Flattening
import GnustepGui.View.FrameSetters
import GnustepGui.View.Squeezing
import GnustepGui.SegmentedCell.Selection
import GnustepGui.SplitView.Dividers
import GnustepGui.CollectionView.Selection
import GnustepGui.CollectionView.Grid
import GnustepGui.Table.Jails
import GnustepGui.LayoutManager.LineFragments
import GnustepGui.SliderCell.TickMarks
import GnustepGui.ColorList.ColorList
import GnustepGui.Image.Representations
