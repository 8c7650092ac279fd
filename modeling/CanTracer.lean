import CanTracer.Regex.First
import CanTracer.CanMsg.LittleEndian
import CanTracer.CanMsg.BigEndian
import CanTracer.CanMsg.Assembly
import CanTracer.CanMsg.Range
import CanTracer.CanMsg.Locality
import CanTracer.CanMsg.Display
import CanTracer.CanMsg.Extraction
import CanTracer.CanMsg.Graph
import CanTracer.CanLogModel.Background
import CanTracer.MainWindow.Series
import CanTracer.Blf.RoundTrip
import CanTracer.Blf.Splices
import CanTracer.Dbc.Origins
import CanTracer.Dbc.BigEndian
import CanTracer.Dbc.RoundTrip
import CanTracer.Dbc.Identifiers
import CanTracer.Dbc.Numbers
import CanTracer.Dbc.BadLines
import CanTracer.Dbc.Tables
import CanTracer.Dbc.Files
import CanTracer.LogParser.WellFormed
import CanTracer.LogParser.Defined
import CanTracer.LogParser.Direction
import CanTracer.LogParser.ShortFrames
import CanTracer.MainWindow.Plots
import CanTracer.MainWindow.Highlights
import CanTracer.MainWindow.Parts
import CanTracer.MainWindow.Failures
import CanTracer.MainWindow.Cancel
import CanTracer.MainWindow.Adding
import CanTracer.MainWindow.Databases
import CanTracer.MainWindow.Filter
import CanTracer.MainWindow.Charts
import CanTracer.MainWindow.Shown
import CanTracer.Labels
import CanTracer.MainWindow.Drawn
import CanTracer.MainWindow.Sources
import CanTracer.LogParser.Growing
import CanTracer.Dbc.Joining
import CanTracer.CanLogModel.MoreFiles
import CanTracer.MainWindow.Colors
import CanTracer.MainWindow.Marks
import CanTracer.MainWindow.Status
import CanTracer.MainWindow.Sides
import CanTracer.LogParser.Formats
import CanTracer.MainWindow.Requires
import CanTracer.MainWindow.Hover
import CanTracer.MainWindow.Picked
import CanTracer.MainWindow.Toggles
import CanTracer.MainWindow.Paints
