import Cgdb.Scroller.Parse
import Cgdb.Scroller.Buffer
import Cgdb.Scroller.Format
import Cgdb.Scroller.Refresh
import Cgdb.Scroller.Chunks
import Cgdb.Scroller.Scroll
import Cgdb.Scroller.Transcript
import Cgdb.Scroller.Screen
import Cgdb.Scroller.Render
import Cgdb.Wm.Tree
import Cgdb.Wm.Float
import Cgdb.Wm.Layout
import Cgdb.Wm.Splitter
import Cgdb.Wm.Panes
import Cgdb.Wm.Undo
import Cgdb.Wm.Neighbor
import Cgdb.Wm.Branching
import Cgdb.Wm.Capacity
import Cgdb.Wm.Tiling
